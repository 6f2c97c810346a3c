import ScriptReader.Proofs.Store.Settled

/-!
# Proofs/Store/Represented — a store keeps a record, whatever its pools look like

A `Record` is what a store is for: finished tokens in their order, and the token being formed.  Each
operation of the store has an obvious counterpart on records, and a store that `Represents` a record
represents the record after the operation once it is done (`Store.represents_apply`), whether the
token being formed stays where it is, starts over or moves to another pool.
-/

namespace ScriptReader

open ScriptReader.Text

/-! ## Records -/

/-- Finished tokens in order, and perhaps one that is being formed. -/
structure Record where
  finished : List Token
  forming : Option Token
  deriving DecidableEq, Repr

namespace Record

def empty : Record := ⟨[], none⟩

/-- A new token, which takes the place of one that was being formed. -/
def start (line : Nat) (r : Record) : Record := { r with forming := some ⟨.unknown, "", line⟩ }

def append (c : Char) (r : Record) : Record :=
  { r with forming := r.forming.map fun t => { t with text := t.text.push c } }

def classify (kind : Kind) (r : Record) : Record :=
  { r with forming := r.forming.map ({ · with kind := kind }) }

def finish (r : Record) : Record := ⟨r.finished ++ r.forming.toList, none⟩

/-- The text of the token being formed. -/
def unsettled (r : Record) : List Char := (r.forming.map fun t => t.text.toList).getD []

end Record

namespace Store

/-! ## Operations -/

/-- What can be done to a store. -/
inductive Op where
  | start (line : Nat)
  | append (c : Char)
  | classify (kind : Kind)
  | finish
  | clear
  deriving DecidableEq, Repr

namespace Op

def apply : Op → Store → Store
  | .start line => Store.start line
  | .append c => Store.append c
  | .classify kind => Store.classify kind
  | .finish => Store.finish
  | .clear => Store.clear

def record : Op → Record → Record
  | .start line => Record.start line
  | .append c => Record.append c
  | .classify kind => Record.classify kind
  | .finish => Record.finish
  | .clear => fun _ => .empty

end Op

/-- The store after operations. -/
def run (ops : List Op) (s : Store) : Store := ops.foldl (fun s op => op.apply s) s

/-- The record after operations. -/
def record (ops : List Op) (r : Record) : Record := ops.foldl (fun r op => op.record r) r

/-! ## What a store represents -/

/-- The store holds finished tokens, and `tail` behind the mark of its current pool. -/
structure Lays (ts : List Token) (tail : List Char) (s : Store) : Prop where
  tokens : s.tokens = ts
  settled : ∀ e ∈ s.entries, s.Settled e
  current_le : s.current ≤ s.pools.size
  ends : ∀ (i : Nat) (p : Pool), s.pools[i]? = some p →
    p.Ends (if i = s.current then tail else [])
  later : ∀ (i : Nat) (p : Pool), s.current < i → s.pools[i]? = some p → p.filled = 0

/-- The entry of a token that is being formed: it begins at the mark of the current pool. -/
def formingEntry (s : Store) (t : Token) : Entry :=
  ⟨s.current, s.currentFilled, s.currentFilled + byteCount t.text.toList, t.kind, t.line⟩

/-- **The store is a way of keeping the record.** -/
structure Represents (r : Record) (s : Store) : Prop where
  lays : s.Lays r.finished r.unsettled
  forming : s.forming = r.forming.map s.formingEntry
  current_lt : r.forming.isSome → s.current < s.pools.size

/-- The same with another current pool. -/
def onCurrent (f : Pool → Pool) (s : Store) : Store :=
  { s with pools := s.pools.modify s.current f }

@[simp] theorem current_onCurrent (f : Pool → Pool) (s : Store) :
    (s.onCurrent f).current = s.current := rfl

variable {r : Record} {s s' : Store} {ts : List Token} {tail tail' : List Char} {t : Token}

theorem tokens_of_keeps (hs : ∀ e ∈ s.entries, s.Settled e) (hk : s.Keeps s')
    (hentries : s'.entries = s.entries) : s'.tokens = s.tokens := by
  rw [tokens, tokens, hentries]
  refine List.map_congr_left fun e he => token_of_keeps hk (hs e ?_)
  exact Array.mem_toList_iff.mp he

theorem currentFilled_eq {p : Pool} (h : s.pools[s.current]? = some p) :
    s.currentFilled = p.filled := by
  rw [currentFilled, h, Option.map_some, Option.getD_some]

theorem currentFilled_onCurrent {f : Pool → Pool} (hf : ∀ p, (f p).filled = p.filled) :
    (s.onCurrent f).currentFilled = s.currentFilled := by
  have hcomp : Pool.filled ∘ f = Pool.filled := funext hf
  rw [currentFilled, currentFilled, onCurrent, Array.getElem?_modify, if_pos rfl, Option.map_map,
    hcomp]

theorem current_onCurrent_lt {f : Pool → Pool} (h : s.current < s.pools.size) :
    (s.onCurrent f).current < (s.onCurrent f).pools.size := by
  rw [onCurrent, Array.size_modify]
  exact h

theorem lays_of_tidy (htokens : s.tokens = ts) (hsettled : ∀ e ∈ s.entries, s.Settled e)
    (hcurrent : s.current ≤ s.pools.size) (h : s.Tidy) : s.Lays ts [] :=
  ⟨htokens, hsettled, hcurrent, fun i p hp => by rw [ite_self]; exact h.ends i p hp, h.later⟩

theorem tidy_of_lays (h : s.Lays ts []) : s.Tidy :=
  ⟨fun i p hp => by have := h.ends i p hp; rwa [ite_self] at this, h.later⟩

/-- Which token is being formed does not matter to what is held. -/
theorem lays_forming (e? : Option Entry) (h : s.Lays ts tail) :
    Lays ts tail { s with forming := e? } :=
  ⟨h.tokens, h.settled, h.current_le, h.ends, h.later⟩

/-- The current pool ends in the tail. -/
theorem ends_current (hs : s.Lays ts tail) {p : Pool} (hp : s.pools[s.current]? = some p) :
    p.Ends tail := by
  have := hs.ends _ p hp
  rwa [if_pos rfl] at this

/-- **A change to the current pool that keeps what is settled changes the tail alone.** -/
theorem lays_onCurrent {f : Pool → Pool} (hs : s.Lays ts tail)
    (hf : ∀ p, s.pools[s.current]? = some p → p.Ends tail → p.Keeps (f p) ∧ (f p).Ends tail') :
    (s.onCurrent f).Lays ts tail' := by
  have hcurrent : ∀ p, s.pools[s.current]? = some p → p.Keeps (f p) ∧ (f p).Ends tail' :=
    fun p hp => hf p hp (ends_current hs hp)
  have hkeeps : s.Keeps (s.onCurrent f) := keeps_modify rfl fun p hp => (hcurrent p hp).1
  refine ⟨(tokens_of_keeps hs.settled hkeeps rfl).trans hs.tokens,
    fun e he => settled_of_keeps hkeeps (hs.settled e he), ?_, fun i p hp => ?_,
    fun i p hi hp => ?_⟩
  · rw [onCurrent, Array.size_modify]
    exact hs.current_le
  · rw [onCurrent, Array.getElem?_modify] at hp
    split at hp
    · next hi =>
      obtain ⟨q, hq, rfl⟩ := Option.map_eq_some_iff.mp hp
      rw [current_onCurrent, if_pos hi.symm]
      exact (hcurrent q (hi ▸ hq)).2
    · next hi =>
      have := hs.ends i p hp
      rwa [current_onCurrent, if_neg (Ne.symm hi)] at *
  · rw [current_onCurrent] at hi
    rw [onCurrent, Array.getElem?_modify, if_neg (Nat.ne_of_lt hi)] at hp
    exact hs.later i p hi hp

/-- The text of a token being formed is what its entry says. -/
theorem text_formingEntry (hs : s.Lays ts t.text.toList) (h : s.current < s.pools.size) :
    s.text (s.formingEntry t) = t.text := by
  have hp := Array.getElem?_eq_getElem h
  have hslice := Pool.slice_of_has (Pool.has_of_ends (ends_current hs hp))
  rw [text, formingEntry, hp, Option.map_some, Option.getD_some, currentFilled_eq hp, hslice,
    String.ofList_toList]

theorem size_formingEntry (s : Store) (t : Token) :
    (s.formingEntry t).size = byteCount t.text.toList :=
  Nat.add_sub_cancel_left _ _

/-! ## Operations on what is represented -/

/-- Cutting the current pool at its mark takes the tail away. -/
theorem lays_truncate (hs : s.Lays ts tail) :
    (s.onCurrent (Pool.truncate s.currentFilled)).Lays ts [] := by
  refine lays_onCurrent hs fun p hp hends => ?_
  rw [currentFilled_eq hp]
  exact ⟨Pool.keeps_truncate hends, Pool.ends_truncate hends⟩

theorem lays_makeRoom (n : Nat) (hs : s.Lays ts []) : (s.makeRoom n).Lays ts [] := by
  have hkeeps := keeps_makeRoom n s
  have hentries := entries_makeRoom n s
  refine lays_of_tidy ((tokens_of_keeps hs.settled hkeeps hentries).trans hs.tokens)
    (fun e he => settled_of_keeps hkeeps (hs.settled e (hentries ▸ he)))
    (Nat.le_of_lt (current_makeRoom_lt n hs.current_le)) (tidy_makeRoom n (tidy_of_lays hs))

theorem represents_start (line : Nat) (hs : s.Represents r) :
    (s.start line).Represents (r.start line) := by
  obtain ⟨hlays, hforming, hlt⟩ := hs
  cases hr : r.forming with
  | none =>
    have htail : r.unsettled = [] := by rw [Record.unsettled, hr]; rfl
    rw [hr, Option.map_none] at hforming
    rw [start, hforming]
    have hroom := lays_makeRoom 0 (htail ▸ hlays)
    exact ⟨lays_forming _ hroom, rfl, fun _ => current_makeRoom_lt 0 hlays.current_le⟩
  | some t =>
    rw [hr] at hforming hlt
    rw [start, hforming]
    refine ⟨lays_forming _ (lays_truncate hlays), ?_, fun _ => current_onCurrent_lt (hlt rfl)⟩
    have hfilled := currentFilled_onCurrent (s := s) (f := Pool.truncate s.currentFilled)
      fun _ => rfl
    exact congrArg (fun n => some (Entry.mk s.current n n .unknown line)) hfilled.symm

/-- A token that is moved to a pool with room is the same token. -/
theorem represents_moveForming (hs : s.Represents ⟨ts, some t⟩) :
    (s.moveForming (s.formingEntry t)).Represents ⟨ts, some t⟩ := by
  have hlt := hs.current_lt rfl
  have hcut := lays_truncate hs.lays
  have hroom := lays_makeRoom (byteCount t.text.toList) hcut
  have hroom_lt := current_makeRoom_lt (byteCount t.text.toList) hcut.current_le
  rw [moveForming, text_formingEntry hs.lays hlt, size_formingEntry]
  refine ⟨lays_forming _ (lays_onCurrent hroom fun p _ hends => ⟨p.keeps_write t.text, ?_⟩), ?_,
    fun _ => current_onCurrent_lt hroom_lt⟩
  · exact Pool.ends_write t.text hends
  · have hfilled := currentFilled_onCurrent (f := Pool.write t.text)
      (s := (s.onCurrent (Pool.truncate s.currentFilled)).makeRoom (byteCount t.text.toList))
      fun _ => rfl
    rw [Entry.moveTo, size_formingEntry]
    exact congrArg (fun n => some (Entry.mk _ n (n + byteCount t.text.toList) t.kind t.line))
      hfilled.symm

/-- Before a move, a character that is added is behind the mark of the current pool. -/
theorem represents_push (c : Char) (hs : s.Represents ⟨ts, some t⟩) :
    Represents ⟨ts, some { t with text := t.text.push c }⟩
      { s.onCurrent (Pool.push c) with
        forming := some { s.formingEntry t with
          last := (s.formingEntry t).last + c.utf8Size } } := by
  have hfilled := currentFilled_onCurrent (s := s) (f := Pool.push c) fun _ => rfl
  have hentry : { s.formingEntry t with last := (s.formingEntry t).last + c.utf8Size } =
      (s.onCurrent (Pool.push c)).formingEntry { t with text := t.text.push c } := by
    simp only [formingEntry, hfilled, current_onCurrent, String.toList_push, byteCount_append,
      byteCount_cons, byteCount_nil, Nat.add_zero, Nat.add_assoc]
  refine ⟨lays_forming _ (lays_onCurrent hs.lays fun p _ hends => ⟨p.keeps_push c, ?_⟩),
    congrArg some hentry, fun _ => current_onCurrent_lt (hs.current_lt rfl)⟩
  rw [Record.unsettled, Option.map_some, Option.getD_some, String.toList_push]
  exact Pool.ends_push c hends

theorem represents_append (c : Char) (hs : s.Represents r) :
    (s.append c).Represents (r.append c) := by
  obtain ⟨ts, forming⟩ := r
  cases forming with
  | none => rw [append, hs.forming]; exact hs
  | some t =>
    have hpushed := represents_push c hs
    rw [append, hs.forming]
    simp only [Option.map_some]
    split
    · exact hpushed
    · have hmove := represents_moveForming hpushed
      rwa [← Option.some.inj hpushed.forming] at hmove

theorem represents_classify (kind : Kind) (hs : s.Represents r) :
    (s.classify kind).Represents (r.classify kind) := by
  obtain ⟨ts, forming⟩ := r
  refine ⟨?_, ?_, fun h => hs.current_lt ?_⟩
  · cases forming with
    | none => exact lays_forming _ hs.lays
    | some t => exact lays_forming _ hs.lays
  · rw [classify, hs.forming]
    cases forming with
    | none => rfl
    | some t => rfl
  · rwa [Record.classify, Option.isSome_map] at h

/-- The forming token's text, once it is counted to the finished ones. -/
theorem has_fill (hs : s.Represents ⟨ts, some t⟩) :
    ∃ p, (s.onCurrent (Pool.fill (byteCount t.text.toList))).pools[s.current]? = some p ∧
      (s.formingEntry t).last = p.filled ∧
      p.Has (s.formingEntry t).first (s.formingEntry t).last t.text.toList := by
  have hlt := hs.current_lt rfl
  have hp := Array.getElem?_eq_getElem hlt
  refine ⟨Pool.fill (byteCount t.text.toList) s.pools[s.current], ?_, ?_, ?_⟩
  · rw [onCurrent, Array.getElem?_modify, if_pos rfl, hp, Option.map_some]
  · rw [formingEntry, currentFilled_eq hp]
    rfl
  · rw [formingEntry, currentFilled_eq hp]
    exact Pool.has_of_ends (ends_current hs.lays hp)

theorem tokens_push (e : Entry) (s : Store) :
    tokens { s with entries := s.entries.push e, forming := none } = s.tokens ++ [s.token e] := by
  rw [tokens, Array.toList_push, List.map_append]
  rfl

theorem represents_finish (hs : s.Represents r) : s.finish.Represents r.finish := by
  obtain ⟨ts, forming⟩ := r
  cases forming with
  | none => rw [finish, hs.forming, Record.finish, Option.toList_none, List.append_nil]; exact hs
  | some t =>
    have hfilled : (s.onCurrent (Pool.fill (byteCount t.text.toList))).Lays ts [] :=
      lays_onCurrent hs.lays fun p _ hends => ⟨p.keeps_fill _, Pool.ends_fill hends⟩
    obtain ⟨p, hp, hlast, hhas⟩ := has_fill hs
    have htoken : (s.onCurrent (Pool.fill (byteCount t.text.toList))).token (s.formingEntry t) =
        t := by
      have htext : (s.onCurrent (Pool.fill (byteCount t.text.toList))).text (s.formingEntry t) =
          t.text := by
        rw [text]
        rw [formingEntry] at hhas ⊢
        rw [hp, Option.map_some, Option.getD_some, Pool.slice_of_has hhas, String.ofList_toList]
      rw [token, htext]
      rfl
    rw [finish, hs.forming, Record.finish]
    simp only [Option.map_some, Option.toList_some, size_formingEntry]
    refine ⟨⟨?_, fun e he => ?_, hfilled.current_le, hfilled.ends, hfilled.later⟩, rfl,
      fun ht => ?_⟩
    · exact (tokens_push _ _).trans (by rw [hfilled.tokens, htoken])
    · rcases Array.mem_push.mp he with he | rfl
      · exact hfilled.settled e he
      · exact ⟨p, hp, Nat.le_of_eq hlast, _, hhas⟩
    · cases ht

/-- **A cleared store represents nothing**, whatever it held. -/
theorem represents_clear (s : Store) : s.clear.Represents .empty := by
  have htidy : s.clear.Tidy := by
    refine ⟨fun i p hp => ?_, fun i p _ hp => ?_⟩ <;>
      rw [clear, Array.getElem?_map] at hp <;>
      obtain ⟨q, -, rfl⟩ := Option.map_eq_some_iff.mp hp
    · exact q.ends_reset
    · rfl
  exact ⟨lays_of_tidy rfl (fun e he => absurd he (Array.not_mem_empty e)) (Nat.zero_le _) htidy,
    rfl, nofun⟩

theorem represents_empty : empty.Represents .empty := by
  have h := represents_clear empty
  rwa [clear, empty, Array.map_empty] at h

/-- **An operation on the store is the operation on the record.** -/
theorem represents_apply (op : Op) (hs : s.Represents r) :
    (op.apply s).Represents (op.record r) := by
  cases op with
  | start line => exact represents_start line hs
  | append c => exact represents_append c hs
  | classify kind => exact represents_classify kind hs
  | finish => exact represents_finish hs
  | clear => exact represents_clear s

/-- **So is a run of operations.** -/
theorem represents_run (ops : List Op) (hs : s.Represents r) :
    (run ops s).Represents (record ops r) := by
  induction ops generalizing s r with
  | nil => exact hs
  | cons op ops ih => exact ih (represents_apply op hs)

end Store

end ScriptReader

import ScriptReader.Proofs.Script.Descent

/-!
# Proofs/Script/Sessions — a session remembers nothing of the scripts it has read

Reading a script asks the store for nothing but the tokens just put into it, so that it can do
without one (`Source.scriptFrom`, `Source.readFrom_fst`).  What a session does keep is pools: no
operation on the store takes one away (`Store.poolCount_le_run`), and reading is a run of
operations.  `Session.readAll_remembers_nothing` says both of scripts that are read one after
another.
-/

namespace ScriptReader

/-! ## Reading without a store -/

namespace Source

/-- What is read from a source, by its first statement; the store gives its tokens back. -/
theorem readFrom_eq (src : Source) (store : Store) (b : Blocks) :
    src.readFrom store b =
      match src.scan.error? with
      | some e => (.error e, store.hold src.scan)
      | none =>
        if src.scan.tokens = [] then (b.finish src.scan.source.line, store.hold src.scan)
        else
          match b.feed (.whole src.scan.tokens) with
          | .error e => (.error e, store.hold src.scan)
          | .ok b => src.scan.source.readFrom (store.hold src.scan) b := by
  rw [Source.readFrom, Store.tokens_hold]
  rfl

/-- Reads on from a place in the source, without a store. -/
def scriptFrom (src : Source) (b : Blocks) : Except Error Script :=
  match src.scan.error? with
  | some e => .error e
  | none =>
    if h : src.scan.tokens = [] then b.finish src.scan.source.line
    else
      have : src.scan.source.rest.length < src.rest.length := src.length_scanFrom_lt _ _ h
      match b.feed (.whole src.scan.tokens) with
      | .error e => .error e
      | .ok b => scriptFrom src.scan.source b
termination_by src.rest.length

/-- **What is read from a source does not depend on the store.** -/
theorem readFrom_fst (src : Source) (store : Store) (b : Blocks) :
    (src.readFrom store b).1 = src.scriptFrom b := by
  fun_induction scriptFrom src b generalizing store with
  | case1 src b e herror => rw [readFrom_eq, herror]
  | case2 src b herror hnil =>
    rw [readFrom_eq, herror]
    simp only [if_pos hnil]
  | case3 src b herror hne _ e hfeed =>
    rw [readFrom_eq, herror]
    simp only [if_neg hne, hfeed]
  | case4 src b herror hne _ b' hfeed ih =>
    rw [readFrom_eq, herror]
    simp only [if_neg hne, hfeed]
    exact ih _

end Source

theorem Script.read_eq (source : String) :
    Script.read source = (Source.ofString source).scriptFrom .empty :=
  (Session.read_fst_eq source .new).trans (Source.readFrom_fst _ _ _)

/-! ## Pools stay -/

namespace Store

theorem size_le_makeRoom (n : Nat) (s : Store) : s.pools.size ≤ (s.makeRoom n).pools.size := by
  fun_induction makeRoom n s with
  | case1 => exact Nat.le_refl _
  | case2 => exact Nat.le_of_eq (Array.size_modify ..).symm
  | case3 _ _ _ _ ih => exact ih
  | case4 => exact Nat.le_of_lt (by rw [Array.size_push]; exact Nat.lt_succ_self _)

/-- No operation takes a pool away. -/
theorem poolCount_le_apply (op : Op) (s : Store) : s.poolCount ≤ (op.apply s).poolCount := by
  unfold poolCount
  cases op with
  | start line =>
    rw [Op.apply, start]
    split
    · exact Nat.le_of_eq (Array.size_modify ..).symm
    · exact size_le_makeRoom 0 s
  | append c =>
    rw [Op.apply, append]
    split
    · exact Nat.le_refl _
    · dsimp only
      split
      · exact Nat.le_of_eq (Array.size_modify ..).symm
      · rw [moveForming, Array.size_modify]
        refine Nat.le_trans ?_ (size_le_makeRoom _ _)
        rw [Array.size_modify, Array.size_modify]
  | classify kind => exact Nat.le_refl _
  | finish =>
    rw [Op.apply, finish]
    split
    · exact Nat.le_refl _
    · exact Nat.le_of_eq (Array.size_modify ..).symm
  | clear => exact Nat.le_of_eq (Array.size_map ..).symm

theorem poolCount_le_run (ops : List Op) (s : Store) : s.poolCount ≤ (run ops s).poolCount := by
  induction ops generalizing s with
  | nil => exact Nat.le_refl _
  | cons op ops ih => exact Nat.le_trans (poolCount_le_apply op s) (ih _)

/-! ## Holding is a run of operations -/

theorem run_append (ops ops' : List Op) (s : Store) : run (ops ++ ops') s = run ops' (run ops s) :=
  List.foldl_append

/-- The operations that form a token. -/
def Op.forming (line : Nat) (text : List Char) : List Op := .start line :: text.map .append

theorem form_eq_run (line : Nat) (text : List Char) (s : Store) :
    s.form line text = run (Op.forming line text) s := by
  rw [Op.forming, run, List.foldl_cons, List.foldl_map]
  rfl

/-- The operations that form and finish a token. -/
def Op.adding (t : Token) : List Op :=
  Op.forming t.line t.text.toList ++ [.classify t.kind, .finish]

theorem add_eq_run (t : Token) (s : Store) : s.add t = run (Op.adding t) s := by
  rw [add, form_eq_run, Op.adding, run_append]
  rfl

/-- The operations by which a store comes to hold a scan. -/
def Op.holding (scan : Scan) : List Op :=
  .clear :: scan.tokens.flatMap Op.adding
    ++ ((scan.flaw.bind Flaw.unfinished).map fun t => Op.forming t.line t.text.toList).getD []

theorem foldl_add_eq_run (ts : List Token) (s : Store) :
    ts.foldl (fun s t => s.add t) s = run (ts.flatMap Op.adding) s := by
  induction ts generalizing s with
  | nil => rfl
  | cons t ts ih => rw [List.foldl_cons, ih, add_eq_run, List.flatMap_cons, run_append]

/-- **To hold a scan is a run of operations.** -/
theorem hold_eq_run (scan : Scan) (s : Store) : s.hold scan = run (Op.holding scan) s := by
  rw [hold, Op.holding, List.cons_append, run, List.foldl_cons, ← run, run_append,
    ← foldl_add_eq_run]
  cases scan.flaw.bind Flaw.unfinished with
  | none => rfl
  | some t => exact form_eq_run _ _ _

theorem poolCount_le_hold (scan : Scan) (s : Store) : s.poolCount ≤ (s.hold scan).poolCount :=
  hold_eq_run scan s ▸ poolCount_le_run _ s

end Store

theorem Source.poolCount_le_readFrom (src : Source) (store : Store) (b : Blocks) :
    store.poolCount ≤ (src.readFrom store b).2.poolCount := by
  fun_induction scriptFrom src b generalizing store with
  | case1 src b e herror =>
    rw [readFrom_eq, herror]
    exact Store.poolCount_le_hold _ _
  | case2 src b herror hnil =>
    rw [readFrom_eq, herror]
    simp only [if_pos hnil]
    exact Store.poolCount_le_hold _ _
  | case3 src b herror hne _ e hfeed =>
    rw [readFrom_eq, herror]
    simp only [if_neg hne, hfeed]
    exact Store.poolCount_le_hold _ _
  | case4 src b herror hne _ b' hfeed ih =>
    rw [readFrom_eq, herror]
    simp only [if_neg hne, hfeed]
    exact Nat.le_trans (Store.poolCount_le_hold _ _) (ih _)

/-! ## Scripts one after another -/

namespace Session

/-- Reads sources one after another: what is read from each, and what then remains of the
session. -/
def readAll : List String → Session → List (Except Error Script × Session)
  | [], _ => []
  | source :: sources, s => s.read source :: readAll sources (s.read source).2

/-- A script is read as in a session of its own. -/
theorem read_fst (source : String) (s : Session) : (s.read source).1 = Script.read source := by
  rw [Script.read_eq, read_fst_eq, Source.readFrom_fst]

theorem map_fst_readAll (sources : List String) (s : Session) :
    (readAll sources s).map Prod.fst = sources.map Script.read := by
  induction sources generalizing s with
  | nil => rfl
  | cons source sources ih => rw [readAll, List.map_cons, List.map_cons, ih, read_fst]

/-- What remains after a script are the cleared store's pools, and no bounds. -/
theorem isCleared_of_mem_readAll {sources : List String} {s later : Session}
    (h : later ∈ (readAll sources s).map Prod.snd) :
    (∃ store : Store, later.store = store.clear) ∧ later.first = 0 ∧ later.last = 0 := by
  induction sources generalizing s with
  | nil => cases h
  | cons source sources ih =>
    rcases List.mem_cons.mp h with rfl | h
    · exact ⟨⟨_, store_read_eq source s⟩, rfl, rfl⟩
    · exact ih h

theorem poolCount_le_read (source : String) (s : Session) :
    s.store.poolCount ≤ (s.read source).2.store.poolCount := by
  rw [store_read_eq]
  exact Nat.le_trans (Source.poolCount_le_readFrom _ _ _) (Store.poolCount_le_apply .clear _)

theorem poolCount_le_of_mem_readAll {sources : List String} {s later : Session}
    (h : later ∈ (readAll sources s).map Prod.snd) :
    s.store.poolCount ≤ later.store.poolCount := by
  induction sources generalizing s with
  | nil => cases h
  | cons source sources ih =>
    have hread := poolCount_le_read source s
    rcases List.mem_cons.mp h with rfl | h
    · exact hread
    · exact Nat.le_trans hread (ih h)

theorem pairwise_poolCount_readAll (sources : List String) (s : Session) :
    (s :: (readAll sources s).map Prod.snd).Pairwise
      (fun earlier later => earlier.store.poolCount ≤ later.store.poolCount) := by
  induction sources generalizing s with
  | nil => exact List.pairwise_singleton _ _
  | cons source sources ih =>
    exact List.pairwise_cons.mpr ⟨fun _ h => poolCount_le_of_mem_readAll h, ih _⟩

/-- **A session remembers nothing of what it has read.**  Wherever it stood, it reads each of some
sources as a session of its own does, and what remains of it after each holds no token, finished or
forming, and none to be read, and never fewer pools than before.  Nor does a statement, or the error
for want of one, depend on what the store held that its tokens are formed in. -/
theorem readAll_remembers_nothing (sources : List String) (s : Session) :
    (readAll sources s).map Prod.fst = sources.map Script.read
      ∧ (∀ later ∈ (readAll sources s).map Prod.snd,
          later.store.tokens = [] ∧ later.store.unfinished? = none
            ∧ later.first = 0 ∧ later.last = 0)
      ∧ (s :: (readAll sources s).map Prod.snd).Pairwise
          (fun earlier later => earlier.store.poolCount ≤ later.store.poolCount)
      ∧ ∀ (src : Source) (store store' : Store),
          (src.formInto store).error? = (src.formInto store').error?
            ∧ (src.formInto store).source = (src.formInto store').source
            ∧ (src.formInto store).store.tokens = (src.formInto store').store.tokens
            ∧ (src.formInto store).store.unfinished?
                = (src.formInto store').store.unfinished? := by
  refine ⟨map_fst_readAll sources s, fun later hlater => ?_, pairwise_poolCount_readAll sources s,
    fun src store store' => ?_⟩
  · obtain ⟨⟨store, hstore⟩, hfirst, hlast⟩ := isCleared_of_mem_readAll hlater
    have hcleared := Store.represents_clear store
    rw [hstore]
    exact ⟨hcleared.lays.tokens, Store.unfinished?_of_represents hcleared, hfirst, hlast⟩
  · rw [Source.formInto_eq, Source.formInto_eq]
    refine ⟨rfl, rfl, ?_, ?_⟩
    · exact (Store.tokens_hold _ _).trans (Store.tokens_hold _ _).symm
    · exact (Store.unfinished?_hold _ _).trans (Store.unfinished?_hold _ _).symm

end Session

end ScriptReader

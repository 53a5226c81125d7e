import MoltMesh.Raft.Converge
import MoltMesh.Raft.Roster

/-!
# Catching up by a snapshot

A voter that has fallen behind is sent a snapshot of the log instead of the entries
below it.  `Snapshot` takes it without application data, and `handleReady` makes no
blocks of it, so a voter that catches up this way has the blocks and the observers of
the entries above the snapshot only.
-/

namespace MoltMesh.Raft

open MoltMesh.Lib Pb Raftpb

section CatchUp

variable {N N' : Node} {env : Env} {e e' : Backend} {T : String} {bs : List ThreadBlock}
  {r : Roster} {log : List Entry}

/-! ## What a log makes of a chain -/

/-- Whether an entry of the log makes a block. -/
def makesBlock (entry : Entry) : Bool :=
  match entry.data with
  | .proposal _ => true
  | .entries _ => true
  | _ => false

theorem isSome_blockOf (N : Node) (entry : Entry) : (blockOf N entry).isSome = makesBlock entry := by
  rcases entry with ⟨term, index, data⟩
  cases data <;> rfl

/-- The chain a log makes over the blocks `bs`, without times. -/
def extend (N : Node) (T : String) (bs : List ThreadBlock) (log : List Entry) : List ThreadBlock :=
  log.foldl (fun bs entry => bs ++ (nextBlock N T bs entry 0).toList) bs

/-- Heights and hashes. -/
def heads (bs : List ThreadBlock) : List (Int × String) := bs.map fun b => (b.height, b.blockHash)

theorem nextBlock_eq_none (N : Node) (T : String) (bs : List ThreadBlock) {entry : Entry}
    (h : makesBlock entry = false) (now : Int) : nextBlock N T bs entry now = none := by
  rw [← isSome_blockOf N, Option.isSome_eq_false_iff, Option.isNone_iff_eq_none] at h
  rw [nextBlock, h]
  rfl

theorem length_extend (N : Node) (T : String) (bs : List ThreadBlock) (log : List Entry) :
    (extend N T bs log).length = bs.length + log.countP makesBlock := by
  induction log generalizing bs with
  | nil => rfl
  | cons entry log ih =>
    change (extend N T (bs ++ (nextBlock N T bs entry 0).toList) log).length = _
    have hlen : (nextBlock N T bs entry 0).toList.length = if makesBlock entry then 1 else 0 := by
      rw [← isSome_blockOf N, nextBlock]
      cases blockOf N entry <;> rfl
    rw [ih, List.length_append, hlen, List.countP_cons]
    omega

/-- Entries that make no blocks may be left out. -/
theorem extend_filter (N : Node) (T : String) (bs : List ThreadBlock) {log : List Entry}
    {p : Entry → Bool} (h : ∀ entry ∈ log, makesBlock entry = true → p entry = true) :
    extend N T bs (log.filter p) = extend N T bs log := by
  induction log generalizing bs with
  | nil => rfl
  | cons entry log ih =>
    have hrest := fun bs => ih bs fun x hx => h x (List.mem_cons_of_mem _ hx)
    change _ = extend N T (bs ++ (nextBlock N T bs entry 0).toList) log
    cases hp : p entry with
    | true =>
      rw [List.filter_cons_of_pos hp]
      exact hrest _
    | false =>
      have hmakes : makesBlock entry = false := by
        by_contra hne
        have htrue := h entry List.mem_cons_self (Bool.eq_true_of_not_eq_false hne)
        rw [hp] at htrue
        cases htrue
      rw [List.filter_cons_of_neg (by rw [hp]; exact Bool.false_ne_true), hrest,
        nextBlock_eq_none N T bs hmakes, Option.toList_none, List.append_nil]

theorem flatMap_entriesOf_filter {log : List Entry} {p : Entry → Bool}
    (h : ∀ entry ∈ log, makesBlock entry = true → p entry = true) :
    (log.filter p).flatMap entriesOf = log.flatMap entriesOf := by
  induction log with
  | nil => rfl
  | cons entry log ih =>
    have hrest := ih fun x hx => h x (List.mem_cons_of_mem _ hx)
    cases hp : p entry with
    | true => rw [List.filter_cons_of_pos hp, List.flatMap_cons, hrest, List.flatMap_cons]
    | false =>
      have hnone : entriesOf entry = [] := by
        rcases entry with ⟨term, index, data⟩
        cases data with
        | proposal q => exact absurd (h _ List.mem_cons_self rfl) (by rw [hp]; nofun)
        | entries l => exact absurd (h _ List.mem_cons_self rfl) (by rw [hp]; nofun)
        | _ => rfl
      rw [List.filter_cons_of_neg (by rw [hp]; exact Bool.false_ne_true), hrest,
        List.flatMap_cons, hnone, List.nil_append]

/-- A log keeps its number of blocks only if none of them is left out. -/
theorem countP_filter_eq_iff {log : List Entry} {p : Entry → Bool} :
    log.countP makesBlock = (log.filter p).countP makesBlock ↔
      ∀ entry ∈ log, makesBlock entry = true → p entry = true := by
  rw [List.countP_eq_countP_filter_add log makesBlock p, Nat.add_eq_left, List.countP_eq_zero]
  simp only [List.mem_filter, Bool.not_eq_true', and_imp]
  refine forall₂_congr fun entry _ => ⟨fun h hm => ?_, fun h hp hm => ?_⟩
  · by_contra hp
    exact h (Bool.eq_false_of_not_eq_true hp) hm
  · rw [h hm] at hp
    cases hp

/-- What entries with an owner make of a chain does not depend on who applies them. -/
theorem extend_eq {log : List Entry} (h : ∀ entry ∈ log, isProposed entry = true) (N N' : Node)
    (T : String) (bs : List ThreadBlock) : extend N T bs log = extend N' T bs log := by
  induction log generalizing bs with
  | nil => rfl
  | cons entry log ih =>
    have hentry := h entry List.mem_cons_self
    change extend N T (bs ++ (nextBlock N T bs entry 0).toList) log =
      extend N' T (bs ++ (nextBlock N' T bs entry 0).toList) log
    rw [nextBlock_of_isProposed hentry, nextBlock_of_isProposed hentry]
    exact ih (fun x hx => h x (List.mem_cons_of_mem _ hx)) _

/-! ## Where a voter stands -/

/-- A voter holds the blocks `bs`, up to the times of their commitment, and the roster `r`. -/
structure Stands (T : String) (bs : List ThreadBlock) (r : Roster) (e : Backend) : Prop where
  threadId : e.thread.id = T
  chain : ∃ cs, e.store.Chain T cs ∧ cs.map undated = bs
  roster : e.roster = r

theorem Stands.entry (h : Stands T bs r e) (entry : Entry)
    (hok : ∀ k ids b, env.fails k (.appendBlock ids b) = false) :
    Stands T (bs ++ (nextBlock N T bs entry 0).toList) ((entriesOf entry).foldl Roster.join r)
      (applyEntry N env e entry) := by
  obtain ⟨rfl, ⟨cs, hc, rfl⟩, rfl⟩ := h
  refine ⟨applyEntry_threadId N env e entry, applyEntry_chain hc entry hok, ?_⟩
  obtain ⟨δ, hj, htrail⟩ := applyEntry_joins N env e entry
  rw [hj.roster]
  -- The entry is stored if it makes a block, and otherwise it has no thread entries.
  have hall : storedEntries δ = entriesOf entry := by
    rcases htrail.storedEntries with hall | ⟨hnil, hno⟩
    · exact hall
    · rw [hnil]
      cases hb : blockOf N entry with
      | none => exact (entriesOf_of_none hb).symm
      | some x =>
        obtain ⟨l, ids, did⟩ := x
        obtain ⟨s', happ, -⟩ := hc.append ids
          (fillBlock e.thread.id entry.term l did (env.now e.trace.length))
          (fun _ _ => rfl) (fun _ _ => rfl) (fun _ _ => rfl) fun _ _ => env.now_pos _
        have hfail := hno l ids did hb _ s' happ
        rw [hok] at hfail
        cases hfail
  rw [hall]

theorem Stands.entries (h : Stands T bs r e) (entries : List Entry)
    (hok : ∀ k ids b, env.fails k (.appendBlock ids b) = false) :
    Stands T (extend N T bs entries) ((entries.flatMap entriesOf).foldl Roster.join r)
      (entries.foldl (applyEntry N env) e) := by
  induction entries generalizing e bs r with
  | nil => exact h
  | cons entry entries ih =>
    rw [List.flatMap_cons, List.foldl_append]
    exact ih (h.entry entry hok)

/-- A batch moves a voter by its committed entries, and by nothing else. -/
theorem Stands.handleReady {rd : Ready} (h : Stands T bs r e)
    (hok : ∀ k ids b, env.fails k (.appendBlock ids b) = false)
    (hr : handleReady N env e rd = .ok e') :
    Stands T (extend N T bs rd.committedEntries)
      ((rd.committedEntries.flatMap entriesOf).foldl Roster.join r) e' := by
  have htrail := handleReady_trail N env e rd
  rw [hr] at htrail
  cases htrail with
  | @applied e₁ δ hp =>
    obtain ⟨cs, hc, hcs⟩ := h.chain
    have hc₁ : e₁.store.Chain T cs := hc.congr (by rw [Store.blockRows, Store.blockRows, hp.blocks])
    have hroster : e₁.roster = e.roster := by
      rw [Backend.roster, hp.thread, hp.peerIDs, hp.didByID]
      rfl
    have h₁ : Stands T bs r e₁ :=
      ⟨hp.logged.threadId.trans h.threadId, ⟨cs, hc₁, hcs⟩, hroster.trans h.roster⟩
    exact h₁.entries rd.committedEntries hok

/-- A voter handles batches one after another, and each block is stored. -/
inductive Handles (N : Node) : Backend → List Ready → Backend → Prop
  | nil (e : Backend) : Handles N e [] e
  | cons {env : Env} {e e₁ e' : Backend} {rd : Ready} {rds : List Ready}
    (hok : ∀ k ids b, env.fails k (.appendBlock ids b) = false)
    (hready : handleReady N env e rd = .ok e₁) (hrest : Handles N e₁ rds e') :
    Handles N e (rd :: rds) e'

theorem Stands.handles {rds : List Ready} (h : Stands T bs r e) (hrun : Handles N e rds e') :
    Stands T (extend N T bs (rds.flatMap Ready.committedEntries))
      (((rds.flatMap Ready.committedEntries).flatMap entriesOf).foldl Roster.join r) e' := by
  induction hrun generalizing bs r with
  | nil => exact h
  | cons hok hready hrest ih =>
    have hnext := ih (h.handleReady hok hready)
    rw [List.flatMap_cons, List.flatMap_append, List.foldl_append, extend, List.foldl_append]
    exact hnext

/-! ## Two ways along a log -/

/-- A voter is handed all of a log and no snapshot. -/
def Replays (N : Node) (e : Backend) (log : List Entry) (e' : Backend) : Prop :=
  ∃ rds, (∀ rd ∈ rds, rd.snapshot.isEmpty = true) ∧ rds.flatMap Ready.committedEntries = log ∧
    Handles N e rds e'

/-- A voter is handed a snapshot, and then the entries of a log above it. -/
def CatchesUp (N : Node) (e : Backend) (snap : Snapshot) (log : List Entry) (e' : Backend) : Prop :=
  ∃ rd rds, rd.snapshot = snap ∧ rd.committedEntries = [] ∧
    (∀ rd ∈ rds, rd.snapshot.isEmpty = true) ∧
    rds.flatMap Ready.committedEntries = (log.filter fun entry => snap.index < entry.index) ∧
    Handles N e (rd :: rds) e'

/-- Two voters have blocks of the same heights and hashes, and the same replicas. -/
def SameChain (T : String) (e e' : Backend) : Prop :=
  (e.store.blockRows T).map (fun row => (row.height, row.blockHash)) =
      (e'.store.blockRows T).map (fun row => (row.height, row.blockHash)) ∧
    e.thread.replicaDids = e'.thread.replicaDids

theorem Stands.heads (h : Stands T bs r e) :
    (e.store.blockRows T).map (fun row => (row.height, row.blockHash)) = heads bs := by
  obtain ⟨cs, hc, rfl⟩ := h.chain
  rw [hc.rows, Raft.heads, List.map_map, List.map_map]
  rfl

theorem sameChain_iff {bs' : List ThreadBlock} {r' : Roster} (h : Stands T bs r e)
    (h' : Stands T bs' r' e') :
    SameChain T e e' ↔ heads bs = heads bs' ∧ r.replicaDids = r'.replicaDids := by
  rw [SameChain, h.heads, h'.heads, ← h.roster, ← h'.roster]
  rfl

theorem length_heads (bs : List ThreadBlock) : (heads bs).length = bs.length := List.length_map _

/-- **When catching up by a snapshot is as good as replaying the log**: no entry at or below the
snapshot makes a block, and the two voters make the same of the log when they replay it, as they do
when every proposal names its owner. -/
theorem catch_up_iff {snap : Snapshot} {e₀ e₀' : Backend} (h : Stands T bs r e₀)
    (h' : Stands T bs r e₀') (hreplay : Replays N e₀ log e) (hcatch : CatchesUp N' e₀' snap log e') :
    (SameChain T e e' ↔
      (∀ entry ∈ log, makesBlock entry = true → snap.index < entry.index) ∧
        heads (extend N T bs log) = heads (extend N' T bs log)) ∧
    ((∀ entry ∈ log, isProposed entry = true) →
      heads (extend N T bs log) = heads (extend N' T bs log)) := by
  obtain ⟨rds, -, rfl, hrun⟩ := hreplay
  obtain ⟨rd, rds', -, hnone, -, hfilter, hrun'⟩ := hcatch
  set log := rds.flatMap Ready.committedEntries
  have hstands := h.handles hrun
  have hstands' := h'.handles hrun'
  rw [List.flatMap_cons, hnone, List.nil_append, hfilter] at hstands'
  refine ⟨?_, fun hown => by rw [extend_eq hown N N']⟩
  have habove : (∀ entry ∈ log, makesBlock entry = true → snap.index < entry.index) ↔
      ∀ entry ∈ log, makesBlock entry = true → decide (snap.index < entry.index) = true :=
    forall₂_congr fun _ _ => by rw [decide_eq_true_iff]
  rw [sameChain_iff hstands hstands', habove]
  constructor
  · rintro ⟨hheads, -⟩
    -- As many blocks have been made, so none has been left out.
    have hlen := congrArg List.length hheads
    rw [length_heads, length_heads, length_extend, length_extend, Nat.add_left_cancel_iff] at hlen
    have hall := countP_filter_eq_iff.mp hlen
    rw [extend_filter N' T bs hall] at hheads
    exact ⟨hall, hheads⟩
  · rintro ⟨hall, hheads⟩
    rw [extend_filter N' T bs hall, flatMap_entriesOf_filter hall]
    exact ⟨hheads, rfl⟩

end CatchUp

namespace Trio

/-- A snapshot of the log. -/
def logSnapshot (index : Nat) : Snapshot := ⟨index, 1, ⟨[1, 2, 3]⟩⟩

/-- A batch that brings a snapshot. -/
def snapshotBatch (index : Nat) : Ready where
  hardState := ⟨1, 1, index⟩
  entries := []
  snapshot := logSnapshot index
  committedEntries := []
  messages := []

theorem stands_first (i : Fin 3) : Stands "t" [] (.ofDids thread.replicaDids) (first i) :=
  ⟨rfl, ⟨[], Store.chain_nil rfl, rfl⟩, rfl⟩

/-- A voter after a batch in which nothing fails. -/
def handled (i : Fin 3) (e : Backend) (rd : Ready) : Backend :=
  ended (handleReady (node i) calm e rd)

theorem handles_cons {i : Fin 3} {e e' : Backend} {rd : Ready} {rds : List Ready}
    (hok : (handleReady (node i) calm e rd).isOk = true)
    (hrest : Handles (node i) (handled i e rd) rds e') : Handles (node i) e (rd :: rds) e' := by
  have hready : handleReady (node i) calm e rd = .ok (handled i e rd) := by
    unfold handled
    cases h : handleReady (node i) calm e rd with
    | ok e₁ => rfl
    | error stop =>
      rw [h] at hok
      cases hok
  exact .cons (fun _ _ _ => rfl) hready hrest

/-- The first voter has the block of the log and the second, sent a snapshot instead, has not. -/
theorem catch_up_loses :
    Stands "t" [] (.ofDids thread.replicaDids) (first 0) ∧
      Stands "t" [] (.ofDids thread.replicaDids) (first 1) ∧
      Replays (node 0) (first 0) log (handled 0 (first 0) (batch log)) ∧
      CatchesUp (node 1) (first 1) (logSnapshot 1) log (handled 1 (first 1) (snapshotBatch 1)) ∧
      ((handled 0 (first 0) (batch log)).store.blockRows "t").map BlockRow.height = [1] ∧
      ((handled 1 (first 1) (snapshotBatch 1)).store.blockRows "t").map BlockRow.height = [] ∧
      ¬SameChain "t" (handled 0 (first 0) (batch log)) (handled 1 (first 1) (snapshotBatch 1)) := by
  refine ⟨stands_first 0, stands_first 1, ⟨[batch log], ?_, rfl, ?_⟩,
    ⟨snapshotBatch 1, [], rfl, rfl, nofun, by decide, ?_⟩, ?_, ?_, fun h => ?_⟩
  · simp [batch, Snapshot.isEmpty, Snapshot.zero]
  · exact handles_cons (by decide +kernel) (.nil _)
  · exact handles_cons (by decide +kernel) (.nil _)
  · decide +kernel
  · decide +kernel
  · have hlen := congrArg List.length h.1
    rw [List.length_map, List.length_map] at hlen
    revert hlen
    decide +kernel

/-- A log that begins with the empty entry of a new leader. -/
def ledLog : List Entry := [⟨1, 1, .empty⟩, ⟨1, 2, .proposal ⟨[1], [post], "d1"⟩⟩]

/-- The second voter is sent a snapshot of the empty entry, and nothing is lost. -/
theorem catch_up_iff_led :
    SameChain "t" (handled 0 (first 0) (batch ledLog))
      (handled 1 (handled 1 (first 1) (snapshotBatch 1)) (batch (ledLog.drop 1))) := by
  have hreplay : Replays (node 0) (first 0) ledLog (handled 0 (first 0) (batch ledLog)) := by
    refine ⟨[batch ledLog], ?_, rfl, handles_cons (by decide +kernel) (.nil _)⟩
    simp [batch, Snapshot.isEmpty, Snapshot.zero]
  have hcatch : CatchesUp (node 1) (first 1) (logSnapshot 1) ledLog
      (handled 1 (handled 1 (first 1) (snapshotBatch 1)) (batch (ledLog.drop 1))) := by
    refine ⟨snapshotBatch 1, [batch (ledLog.drop 1)], rfl, rfl, ?_, by decide, ?_⟩
    · simp [batch, Snapshot.isEmpty, Snapshot.zero]
    · exact handles_cons (by decide +kernel) (handles_cons (by decide +kernel) (.nil _))
  obtain ⟨hiff, hown⟩ := catch_up_iff (stands_first 0) (stands_first 1) hreplay hcatch
  exact hiff.mpr ⟨by decide, hown (by decide)⟩

end Trio

end MoltMesh.Raft

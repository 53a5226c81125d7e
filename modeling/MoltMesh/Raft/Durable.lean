import Mathlib.Logic.Relation
import MoltMesh.Raft.Calls
import MoltMesh.Raft.Disk

/-!
# The log in memory and the log on disk

Every batch of the Raft node is written to the database and then to the storage the
node reads.  The storage drops what an appended batch overwrites, and all of its log
when a snapshot comes; the database only replaces rows.  The two agree as long as
no entry of the storage lies beyond the batch (`Covers`).
-/

namespace MoltMesh.Raft

open MoltMesh.Lib Pb Raftpb

variable {N : Node} {env : Env} {e e' : Backend} {T : String} {ms ms' : MemoryStorage} {rd : Ready}
  {s : Store} {snap : Snapshot} {hs : HardState} {l : List Entry}

/-! ## What is not touched -/

/-- Two stores with the same Raft state. -/
structure SameRaft (s s' : Store) : Prop where
  raftHardState : s'.raftHardState = s.raftHardState
  raftEntries : s'.raftEntries = s.raftEntries
  raftSnapshots : s'.raftSnapshots = s.raftSnapshots

theorem SameRaft.refl (s : Store) : SameRaft s s := ⟨rfl, rfl, rfl⟩

theorem SameRaft.trans {s' s'' : Store} (h : SameRaft s s') (h' : SameRaft s' s'') :
    SameRaft s s'' where
  raftHardState := h'.raftHardState.trans h.raftHardState
  raftEntries := h'.raftEntries.trans h.raftEntries
  raftSnapshots := h'.raftSnapshots.trans h.raftSnapshots

theorem SameLog.sameRaft {s' : Store} (h : SameLog s s') : SameRaft s s' :=
  ⟨h.raftHardState, h.raftEntries, h.raftSnapshots⟩

theorem sameRaft_ackPending (s : Store) (ids : List Int) : SameRaft s (s.ackPending ids) := by
  induction ids generalizing s with
  | nil => exact .refl s
  | cons id ids ih =>
    have hstep : SameRaft s ((s.deletePending id).deleteClaim id) := ⟨rfl, rfl, rfl⟩
    exact hstep.trans (ih _)

theorem disk_sameRaft {s' : Store}
    (h : Disk s T snap hs l) (hs' : SameRaft s s') : Disk s' T snap hs l :=
  h.congr hs'.raftSnapshots hs'.raftHardState hs'.raftEntries

/-- An applied entry leaves the Raft state and the storage, and is noted as applied. -/
theorem applyEntry_raft (N : Node) (env : Env) (e : Backend) (entry : Entry) :
    SameRaft e.store (applyEntry N env e entry).store ∧
      (applyEntry N env e entry).storage = e.storage ∧
      (applyEntry N env e entry).appliedIndex = entry.index := by
  obtain ⟨δ, hδ⟩ := applyEntry_trail N env e entry
  generalize applyEntry N env e entry = e' at hδ
  cases hδ with
  | skip hδ hno => exact ⟨hδ.sameLog.sameRaft, hδ.storage, hδ.appliedIndex⟩
  | @commit l ids did b s' e₁ δ hblock happ hw hs hmem e₂ hδ he =>
    rw [he]
    refine ⟨?_, hδ.storage.trans hmem.1, hδ.appliedIndex.trans hmem.2.1⟩
    rw [Store.appendBlockAndAckPending_eq] at happ
    obtain ⟨blocks, -, heq⟩ := Option.map_eq_some_iff.mp happ
    have hstored : SameRaft e.store e₁.store := by
      have hack := sameRaft_ackPending { e.store with blocks } ids
      rw [hs, ← (Prod.mk.inj heq).2]
      exact ⟨hack.raftHardState, hack.raftEntries, hack.raftSnapshots⟩
    exact hstored.trans hδ.sameLog.sameRaft

theorem applyAll_raft (N : Node) (env : Env) (e : Backend) (entries : List Entry) :
    SameRaft e.store (entries.foldl (applyEntry N env) e).store ∧
      (entries.foldl (applyEntry N env) e).storage = e.storage ∧
      (entries.foldl (applyEntry N env) e).appliedIndex =
        ((entries.getLast?).map Entry.index).getD e.appliedIndex := by
  induction entries generalizing e with
  | nil => exact ⟨.refl _, rfl, rfl⟩
  | cons entry entries ih =>
    obtain ⟨hraft, hstorage, happlied⟩ := applyEntry_raft N env e entry
    obtain ⟨hraft', hstorage', happlied'⟩ := ih (applyEntry N env e entry)
    refine ⟨hraft.trans hraft', hstorage'.trans hstorage, happlied'.trans ?_⟩
    rw [happlied]
    cases entries with
    | nil => rfl
    | cons x xs =>
      rw [List.getLast?_cons_cons, List.getLast?_eq_some_getLast (List.cons_ne_nil x xs)]
      rfl

/-! ## Appending to the storage -/

theorem append_of_fits {n : Nat} {entries : List Entry}
    (hentries : Contiguous Entry.index (ms.offset + n) entries) (hn : n ≤ ms.ents.length) :
    ms.append entries =
      some (if entries = [] then ms else { ms with ents := ms.ents.take n ++ entries }) := by
  cases entries with
  | nil => rfl
  | cons x xs =>
    have hx : x.index = ms.offset + n + 1 := hentries.1
    have hfresh : ms.fresh (x :: xs) = x :: xs := by
      refine if_neg ?_
      rw [MemoryStorage.firstIndex]
      omega
    have hfits : ¬(x.index ≤ ms.offset ∨ ms.lastIndex + 1 < x.index) := by
      rw [MemoryStorage.lastIndex]
      omega
    have hpos : x.index - ms.offset - 1 = n := by omega
    rw [MemoryStorage.append, hfresh, if_neg (List.cons_ne_nil x xs)]
    dsimp only
    rw [if_neg hfits, hpos]

/-! ## Batches -/

/-- The hard state after a batch. -/
def nextHardState (hs : HardState) (rd : Ready) : HardState :=
  if rd.hardState.isEmpty then hs else rd.hardState

/-- What the Raft node assures of a batch, given its storage: a snapshot is newer than what is
committed and is committed with the batch; the entries follow it, or follow an entry of the log that
is not below the commit index; the commit index does not go back and is within the log; the first
batch has a hard state; what is to be applied is committed. -/
structure ValidReady (ms : MemoryStorage) (rd : Ready) : Prop where
  snapshot : rd.snapshot.isEmpty = false →
    ms.hardState.commit < rd.snapshot.index ∧ rd.snapshot.index ≤ rd.hardState.commit
  following : rd.snapshot.isEmpty = false → Contiguous Entry.index rd.snapshot.index rd.entries
  entries : rd.snapshot.isEmpty = true → ∃ n ≤ ms.ents.length,
    ms.hardState.commit ≤ ms.offset + n ∧ Contiguous Entry.index (ms.offset + n) rd.entries
  commit : rd.hardState.isEmpty = false → ms.hardState.commit ≤ rd.hardState.commit ∧
    ∀ ms', (installed ms rd).append rd.entries = some ms' → rd.hardState.commit ≤ ms'.lastIndex
  hardState : ms.hardState.isEmpty = true → rd.hardState.isEmpty = false
  committed : ∀ x ∈ rd.committedEntries, x.index ≤ (nextHardState ms.hardState rd).commit

/-- The storage after a batch without a snapshot. -/
theorem storage_of_entries {n : Nat} (hsnap : rd.snapshot.isEmpty = true)
    (hentries : Contiguous Entry.index (ms.offset + n) rd.entries) (hn : n ≤ ms.ents.length) :
    (installed ms rd).append rd.entries = some { ms with
      hardState := nextHardState ms.hardState rd
      ents := if rd.entries = [] then ms.ents else ms.ents.take n ++ rd.entries } := by
  have hinst : installed ms rd = { ms with hardState := nextHardState ms.hardState rd } := by
    unfold installed nextHardState
    rw [if_pos hsnap]
    dsimp only
    split <;> rfl
  rw [hinst]
  refine (@append_of_fits { ms with hardState := nextHardState ms.hardState rd } n rd.entries
    hentries hn).trans ?_
  congr 1
  split <;> rfl

/-- The storage after a batch with a snapshot that is not out of date. -/
theorem storage_of_snapshot (hsnap : rd.snapshot.isEmpty = false)
    (hnew : ms.snapshot.index < rd.snapshot.index)
    (hentries : Contiguous Entry.index rd.snapshot.index rd.entries) :
    (installed ms rd).append rd.entries = some ⟨nextHardState ms.hardState rd, rd.snapshot,
      rd.snapshot.index, rd.snapshot.term, rd.entries⟩ := by
  have hinst : installed ms rd = ⟨nextHardState ms.hardState rd, rd.snapshot, rd.snapshot.index,
      rd.snapshot.term, []⟩ := by
    unfold installed nextHardState MemoryStorage.applySnapshot
    rw [hsnap, if_neg Bool.false_ne_true, if_neg (Nat.not_le_of_lt hnew)]
    dsimp only [Option.getD_some]
    split <;> rfl
  rw [hinst, append_of_fits (n := 0) hentries (Nat.zero_le _)]
  congr 1
  split
  · rename_i hnil
    rw [hnil]
  · rfl

/-- The last index of a numbered list. -/
theorem index_getLast {base : Nat} {entries : List Entry} (h : Contiguous Entry.index base entries)
    {x : Entry} (hx : entries.getLast? = some x) : x.index = base + entries.length := by
  rw [List.getLast?_eq_getElem?] at hx
  have hlt := (List.getElem?_eq_some_iff.mp hx).1
  rw [h.getElem? hx]
  omega

/-! ## Mirroring -/

/-- The condition on a batch: nothing of the storage lies beyond it. -/
def Covers (ms : MemoryStorage) (rd : Ready) : Prop :=
  (∀ x ∈ rd.entries.getLast?, ms.lastIndex ≤ x.index) ∧
    (rd.entries = [] → rd.snapshot.isEmpty = false → ms.lastIndex ≤ rd.snapshot.index)

/-- The database holds what the storage holds. -/
structure Mirror (s : Store) (T : String) (ms : MemoryStorage) : Prop where
  disk : Disk s T ms.snapshot ms.hardState ms.ents
  offset : ms.offset = ms.snapshot.index
  commit : ms.snapshot.index ≤ ms.hardState.commit

/-- The Raft state after the transactions of a batch without a snapshot. -/
theorem replay_readyWrites_of_isEmpty (T : String) (s : Store) (hsnap : rd.snapshot.isEmpty = true) :
    replay T s (readyWrites rd) = s.saveRaftReady T rd.hardState rd.entries := by
  rw [readyWrites, if_pos hsnap]
  rfl

theorem replay_readyWrites_of_not_isEmpty (T : String) (s : Store)
    (hsnap : rd.snapshot.isEmpty = false) : replay T s (readyWrites rd) =
      (s.saveRaftReady T rd.hardState rd.entries).saveRaftSnapshot T rd.snapshot := by
  rw [readyWrites, hsnap]
  rfl

theorem commit_le_next (hv : ValidReady ms rd) :
    ms.hardState.commit ≤ (nextHardState ms.hardState rd).commit := by
  unfold nextHardState
  split
  · exact Nat.le_refl _
  · rename_i hne
    exact (hv.commit (Bool.eq_false_of_not_eq_true hne)).1

/-- What a batch does to the storage and to the database. -/
theorem Mirror.batch (hm : Mirror s T ms) (hv : ValidReady ms rd) (hc : Covers ms rd) :
    ∃ ms', (installed ms rd).append rd.entries = some ms' ∧
      Mirror (replay T s (readyWrites rd)) T ms' := by
  cases hsnap : rd.snapshot.isEmpty with
  | true =>
    obtain ⟨n, hn, hbase, hentries⟩ := hv.entries hsnap
    refine ⟨_, storage_of_entries hsnap hentries hn, ?_, hm.offset,
      Nat.le_trans hm.commit (commit_le_next hv)⟩
    rw [replay_readyWrites_of_isEmpty T s hsnap]
    have hdisk := hm.disk.saveRaftReady rd.hardState (hm.offset ▸ hentries) hn
    have hlog : splice ms.ents n rd.entries =
        if rd.entries = [] then ms.ents else ms.ents.take n ++ rd.entries := by
      split
      · rename_i hnil
        rw [hnil, splice, List.append_nil, List.length_nil, Nat.add_zero, List.take_append_drop]
      · rename_i hne
        refine splice_of_le ?_
        have hlast := List.getLast?_eq_some_getLast hne
        have hcover := hc.1 _ hlast
        rw [index_getLast hentries hlast, MemoryStorage.lastIndex] at hcover
        omega
    rw [hlog] at hdisk
    exact hdisk
  | false =>
    obtain ⟨hnew, hcommitted⟩ := hv.snapshot hsnap
    have hentries := hv.following hsnap
    have hlt : ms.snapshot.index < rd.snapshot.index := Nat.lt_of_le_of_lt hm.commit hnew
    refine ⟨_, storage_of_snapshot hsnap hlt hentries, ?_, rfl, ?_⟩
    · rw [replay_readyWrites_of_not_isEmpty T s hsnap]
      have hdisk := hm.disk.install rd.hardState (Nat.le_of_lt hlt) hentries
      have hlog : splice (ms.ents.drop (rd.snapshot.index - ms.snapshot.index)) 0 rd.entries =
          rd.entries := by
        refine (splice_of_le ?_).trans (List.nil_append _)
        have hlast : ms.lastIndex ≤ rd.snapshot.index + rd.entries.length := by
          cases hx : rd.entries.getLast? with
          | none =>
            have hnil := List.getLast?_eq_none_iff.mp hx
            rw [hnil]
            exact hc.2 hnil hsnap
          | some x => exact index_getLast hentries hx ▸ hc.1 x hx
        rw [MemoryStorage.lastIndex, hm.offset] at hlast
        rw [List.length_drop]
        omega
      rw [hlog] at hdisk
      exact hdisk
    · have hne : rd.hardState.isEmpty = false := by
        cases hhs : rd.hardState.isEmpty with
        | false => rfl
        | true =>
          have hzero : rd.hardState = ⟨0, 0, 0⟩ := of_decide_eq_true hhs
          rw [hzero] at hcommitted
          change rd.snapshot.index ≤ 0 at hcommitted
          omega
      change rd.snapshot.index ≤ (nextHardState ms.hardState rd).commit
      rw [nextHardState, hne]
      exact hcommitted

theorem Mirror.sameRaft {s' : Store} (hm : Mirror s T ms) (hs : SameRaft s s') : Mirror s' T ms :=
  ⟨disk_sameRaft hm.disk hs, hm.offset, hm.commit⟩

/-- A batch that is handled to its end. -/
def ReadyStep (N : Node) (ok : MemoryStorage → Ready → Prop) (e e' : Backend) : Prop :=
  ∃ env rd, ok e.storage rd ∧ handleReady N env e rd = .ok e'

theorem Mirror.handleReady (hm : Mirror e.store e.thread.id e.storage) (hv : ValidReady e.storage rd)
    (hc : Covers e.storage rd) (hok : handleReady N env e rd = .ok e') :
    e'.thread.id = e.thread.id ∧ Mirror e'.store e.thread.id e'.storage := by
  have htrail := handleReady_trail N env e rd
  rw [hok] at htrail
  cases htrail with
  | @applied e₁ δ hp =>
    obtain ⟨ms', happ, hm'⟩ := hm.batch hv hc
    obtain rfl : e₁.storage = ms' := Option.some.inj (hp.storage.symm.trans happ)
    obtain ⟨hraft, hstorage, -⟩ := applyAll_raft N env e₁ rd.committedEntries
    obtain ⟨δ', hall⟩ := applyAll_logged N env e₁ rd.committedEntries
    refine ⟨hall.threadId.trans hp.logged.threadId, ?_⟩
    rw [hstorage]
    refine (hm'.sameRaft ?_).sameRaft hraft
    rw [hp.logged.store, replay_append]
    exact (sameLog_replay fun a ha => Effect.spares_of_isQuiet (hp.quiet a ha)).sameRaft

/-! ## Starting -/

/-- A database without a trace of the thread. -/
structure Blank (s : Store) (T : String) : Prop where
  raftHardState : s.raftHardState.lookup T = none
  raftSnapshots : s.raftSnapshots.lookup T = none
  raftEntries : ∀ entry, (T, entry) ∉ s.raftEntries.rows
  blocks : s.getCommittedHeight T = 0
  consensusState : s.loadConsensusState T = .start 1

theorem Blank.disk (h : Blank s T) : Disk s T .zero ⟨0, 0, 0⟩ [] where
  snapshot := by rw [Store.diskSnapshot, h.raftSnapshots]; rfl
  hardState := by rw [Store.diskHardState, h.raftHardState]; rfl
  rows entry := ⟨fun hmem => absurd hmem (h.raftEntries entry), fun hmem => absurd hmem List.not_mem_nil⟩
  contiguous := trivial

/-- Nothing has been committed as long as there is no hard state. -/
def Unborn (s : Store) (T : String) (hs : HardState) : Prop :=
  hs.isEmpty = true → s.getCommittedHeight T = 0 ∧ s.loadConsensusState T = .start 1

/-- The storage with what the database holds. -/
def loaded (snap : Snapshot) (hs : HardState) (l : List Entry) : MemoryStorage :=
  if snap.isEmpty then ⟨hs, .zero, 0, 0, l⟩ else ⟨hs, snap, snap.index, snap.term, l⟩

/-- The storage a new backend builds from a Raft state. -/
theorem loadStorage_of_disk (hd : Disk s T snap hs l) (hu : Unborn s T hs) :
    loadStorage s T = some (loaded snap hs l) := by
  have hload := hd.loadRaftState
  -- Snapshot and entries.
  have hexact : loadExact s T = some (loaded snap ⟨0, 0, 0⟩ l) := by
    unfold loadExact loaded
    rw [hload]
    dsimp only
    cases hsnap : snap.isEmpty with
    | true =>
      have hzero : snap.index = 0 := of_decide_eq_true hsnap
      have hl : Contiguous Entry.index (MemoryStorage.new.offset + 0) l := by
        have hcont := hd.contiguous
        rw [hzero] at hcont
        exact hcont
      rw [if_pos rfl, if_pos rfl, append_of_fits hl (Nat.zero_le _)]
      congr 1
      split
      · rename_i hnil
        rw [hnil]
        rfl
      · rfl
    | false =>
      have hpos : ¬snap.index ≤ MemoryStorage.new.snapshot.index := by
        have hne : snap.index ≠ 0 := of_decide_eq_false hsnap
        change ¬snap.index ≤ 0
        omega
      rw [if_neg Bool.false_ne_true, if_neg Bool.false_ne_true, MemoryStorage.applySnapshot,
        if_neg hpos, Option.getD_some]
      refine (append_of_fits (n := 0) hd.contiguous (Nat.zero_le _)).trans ?_
      congr 1
      split
      · rename_i hnil
        rw [hnil]
        rfl
      · rfl
  have hset : (loaded snap ⟨0, 0, 0⟩ l).setHardState hs = loaded snap hs l := by
    unfold loaded
    split <;> rfl
  -- The hard state, if there is one; otherwise there are no blocks to rebuild the log from.
  have hlog : loadLog s T = some (loaded snap hs l, exactLastIndex s T) := by
    unfold loadLog
    rw [hexact]
    change (if hasExactState s T && !(s.loadRaftState T).2.1.isEmpty then _ else _) = _
    rw [hload]
    cases hhs : hs.isEmpty with
    | true =>
      have hzero : hs = ⟨0, 0, 0⟩ := of_decide_eq_true hhs
      rw [Bool.not_true, Bool.and_false, if_neg Bool.false_ne_true,
        if_neg (by rw [(hu hhs).1]; exact Int.lt_irrefl 0), hzero]
      rfl
    | false =>
      have hhas : hasExactState s T = true := by
        rw [hasExactState, hload]
        dsimp only
        rw [hhs]
        cases snap.isEmpty <;> rfl
      rw [hhas, Bool.not_false, Bool.and_true, if_pos rfl, ← hset]
      rfl
  unfold loadStorage
  rw [hlog]
  change (if _ then _ else _) = _
  refine if_neg ?_
  rw [Bool.and_eq_true, decide_eq_true_eq, not_and, Bool.not_eq_true']
  intro hno
  have hhs : hs.isEmpty = true := by
    rw [hasExactState, hload] at hno
    dsimp only at hno
    cases hhs : hs.isEmpty with
    | true => rfl
    | false =>
      rw [hhs] at hno
      revert hno
      cases snap.isEmpty <;> intro hno <;> cases hno
  rw [(hu hhs).2]
  decide

/-- A backend starts with a storage that holds what the database holds. -/
theorem mirror_of_new {thread : Thread} {start : NodeStart} (hdisk : Disk s thread.id snap hs l)
    (hempty : snap.isEmpty = true → snap = .zero) (hcommit : snap.index ≤ hs.commit)
    (hunborn : Unborn s thread.id hs) (hnew : newRaftBackend N env thread s = .ok (start, e)) :
    e.thread.id = thread.id ∧ Mirror e.store thread.id e.storage := by
  obtain ⟨hthread, -, hstore, hstorage, -⟩ := newRaftBackend_eq_ok hnew
  have hdisk' : Disk (s.releasePendingClaims thread.id) thread.id snap hs l := hdisk.congr rfl rfl rfl
  rw [loadStorage_of_disk hdisk' hunborn] at hstorage
  refine ⟨congrArg Thread.id hthread, ?_⟩
  rw [hstore, ← Option.some.inj hstorage, loaded]
  split
  · rename_i hsnap
    rw [hempty hsnap] at hdisk' hcommit
    exact ⟨hdisk', rfl, hcommit⟩
  · exact ⟨hdisk', rfl, hcommit⟩

/-- **The log on disk is the log in memory**, in every run whose batches are valid and cover what the
storage holds, if the backend has been started from a Raft state or from nothing. -/
theorem disk_mirrors_storage {thread : Thread} {env₀ : Env} {s : Store} {start : NodeStart}
    {e₀ : Backend} {snap : Snapshot} {hs : HardState} {l : List Entry}
    (hdisk : Disk s thread.id snap hs l) (hempty : snap.isEmpty = true → snap = .zero)
    (hcommit : snap.index ≤ hs.commit) (hunborn : Unborn s thread.id hs)
    (hnew : newRaftBackend N env₀ thread s = .ok (start, e₀))
    (hrun : Relation.ReflTransGen (ReadyStep N fun ms rd => ValidReady ms rd ∧ Covers ms rd) e₀ e) :
    e.store.loadRaftState thread.id =
      (e.storage.snapshot, e.storage.hardState, e.storage.ents) := by
  have hmirror : e.thread.id = thread.id ∧ Mirror e.store thread.id e.storage := by
    induction hrun with
    | refl => exact mirror_of_new hdisk hempty hcommit hunborn hnew
    | tail _ hstep ih =>
      obtain ⟨env, rd, ⟨hv, hc⟩, hok⟩ := hstep
      obtain ⟨hid, hm⟩ := ih
      obtain ⟨hid', hm'⟩ := Mirror.handleReady (hid.symm ▸ hm) hv hc hok
      exact ⟨hid'.trans hid, hid ▸ hm'⟩
  exact hmirror.2.disk.loadRaftState

/-! ## Three replicas -/

namespace Trio

theorem blank : Blank .empty thread.id where
  raftHardState := rfl
  raftSnapshots := rfl
  raftEntries _ := List.not_mem_nil
  blocks := rfl
  consensusState := rfl

/-- The configuration changes `raft.StartNode` puts into the log, all committed. -/
def boot : Ready where
  hardState := ⟨1, 0, 3⟩
  entries := [⟨1, 1, .confChange (.addNode 1)⟩, ⟨1, 2, .confChange (.addNode 2)⟩,
    ⟨1, 3, .confChange (.addNode 3)⟩]
  snapshot := .zero
  committedEntries := [⟨1, 1, .confChange (.addNode 1)⟩, ⟨1, 2, .confChange (.addNode 2)⟩,
    ⟨1, 3, .confChange (.addNode 3)⟩]
  messages := []

/-- A follower appends what a leader of term 2 sends. -/
def follow : Ready where
  hardState := ⟨2, 2, 3⟩
  entries := [⟨2, 4, .empty⟩, ⟨2, 5, .proposal ⟨[1], [post], "d2"⟩⟩]
  snapshot := .zero
  committedEntries := []
  messages := []

/-- A leader of term 3 has another fourth entry, and no fifth one. -/
def replaced : Ready where
  hardState := ⟨3, 3, 3⟩
  entries := [⟨3, 4, .empty⟩]
  snapshot := .zero
  committedEntries := []
  messages := []

/-- The first replica after a batch. -/
def after (e : Backend) (rd : Ready) : Backend := ended (handleReady (node 0) calm e rd)

theorem handleReady_boot : handleReady (node 0) calm (first 0) boot = .ok (after (first 0) boot) := rfl

theorem handleReady_follow : handleReady (node 0) calm (after (first 0) boot) follow =
    .ok (after (after (first 0) boot) follow) := rfl

theorem handleReady_replaced : handleReady (node 0) calm (after (after (first 0) boot) follow) replaced =
    .ok (after (after (after (first 0) boot) follow) replaced) := rfl

theorem validReady_boot : ValidReady (first 0).storage boot where
  snapshot h := by cases h
  following h := by cases h
  entries _ := ⟨0, Nat.le_refl _, Nat.le_refl _, ⟨rfl, rfl, rfl, trivial⟩⟩
  commit _ := ⟨by decide, fun ms' h => by cases h; decide⟩
  hardState _ := rfl
  committed := by decide

theorem validReady_follow : ValidReady (after (first 0) boot).storage follow where
  snapshot h := by cases h
  following h := by cases h
  entries _ := ⟨3, by decide +kernel, by decide +kernel, ⟨rfl, rfl, trivial⟩⟩
  commit _ := ⟨by decide +kernel, fun ms' h => by cases h; decide +kernel⟩
  hardState _ := rfl
  committed _ h := absurd h List.not_mem_nil

theorem validReady_replaced :
    ValidReady (after (after (first 0) boot) follow).storage replaced where
  snapshot h := by cases h
  following h := by cases h
  entries _ := ⟨3, by decide +kernel, by decide +kernel, ⟨rfl, trivial⟩⟩
  commit _ := ⟨by decide +kernel, fun ms' h => by cases h; decide +kernel⟩
  hardState _ := rfl
  committed _ h := absurd h List.not_mem_nil

/-- The database still has the fifth entry of term 2 behind the fourth one of term 3. -/
theorem disk_keeps_suffix : ∃ e,
    newRaftBackend (node 0) calm thread .empty = .ok (.start [1, 2, 3], first 0) ∧
    Relation.ReflTransGen (ReadyStep (node 0) ValidReady) (first 0) e ∧
    e.storage.ents = boot.entries ++ replaced.entries ∧
    e.store.loadRaftState thread.id = (e.storage.snapshot, e.storage.hardState,
      boot.entries ++ replaced.entries ++ [⟨2, 5, .proposal ⟨[1], [post], "d2"⟩⟩]) := by
  refine ⟨after (after (after (first 0) boot) follow) replaced, newRaftBackend_first 0, ?_, ?_, ?_⟩
  · exact .tail (.tail (.single ⟨calm, boot, validReady_boot, handleReady_boot⟩)
      ⟨calm, follow, validReady_follow, handleReady_follow⟩)
      ⟨calm, replaced, validReady_replaced, handleReady_replaced⟩
  · decide +kernel
  · decide +kernel

theorem disk_mirrors_storage_follow :
    (after (after (first 0) boot) follow).store.loadRaftState thread.id =
      ((after (after (first 0) boot) follow).storage.snapshot,
        (after (after (first 0) boot) follow).storage.hardState,
        (after (after (first 0) boot) follow).storage.ents) := by
  have hboot : Covers (first 0).storage boot :=
    ⟨fun x hx => by cases hx; decide +kernel, fun h => by cases h⟩
  have hfollow : Covers (after (first 0) boot).storage follow :=
    ⟨fun x hx => by cases hx; decide +kernel, fun h => by cases h⟩
  refine disk_mirrors_storage blank.disk (fun _ => rfl) (Nat.le_refl 0)
    (fun _ => ⟨blank.blocks, blank.consensusState⟩) (newRaftBackend_first 0) ?_
  exact .tail (.single ⟨calm, boot, ⟨validReady_boot, hboot⟩, handleReady_boot⟩)
    ⟨calm, follow, ⟨validReady_follow, hfollow⟩, handleReady_follow⟩

end Trio

end MoltMesh.Raft

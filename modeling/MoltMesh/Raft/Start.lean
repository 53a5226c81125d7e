import MoltMesh.Raft.Backend

/-!
# Starting the Raft backend

`newRaftBackend`: the storage is rebuilt from the exact Raft state if the database
has one and from the stored blocks if it has not, and the Raft node is started
anew or restarted on it.  Restarting it panics when the commit index of the hard
state is not within the log.
-/

namespace MoltMesh.Raft

open MoltMesh.Lib Pb Raftpb

variable {N : Node} {env : Env} {T : Thread} {s : Store} {e : Backend}

/-- How the Raft node is started. -/
inductive NodeStart
  /-- `raft.StartNode`. -/
  | start (peers : List Nat)
  /-- `raft.RestartNode`. -/
  | restart
deriving DecidableEq

/-- Why there is no backend. -/
inductive StartError
  /-- The local DID is not in `ReplicaDids`. -/
  | notReplica (did : String)
  | releaseClaims
  | load
  /-- The Raft library panics. -/
  | panic
deriving DecidableEq

/-- The maps `peerIDs` and `didByID`: ids count from 1 along `ReplicaDids`. -/
def peerTables (dids : List String) :
    Table (String × Nat) Prod.fst × Table (Nat × String) Prod.fst :=
  dids.zipIdx.foldl (fun (peerIDs, didByID) (did, i) =>
    (peerIDs.insertOrReplace (did, i + 1), didByID.insertOrReplace (i + 1, did))) (.empty, .empty)

/-- The number of voters: `thread.N`, or all replicas when it is out of range. -/
def voterCount (T : Thread) : Nat :=
  if T.n.toInt ≤ 0 ∨ (T.replicaDids.length : Int) < T.n.toInt then T.replicaDids.length
  else T.n.toInt.toNat

/-- The Raft ids of the first `voterCount` replicas. -/
def voterIDs (T : Thread) : List Nat :=
  (T.replicaDids.take (voterCount T)).map fun did =>
    (((peerTables T.replicaDids).1.lookup did).map Prod.snd).getD 0

/-- A `uint64` conversion. -/
def toUint64 (n : Int) : Nat := (n % 18446744073709551616).toNat

/-- The log entry rebuilt from a stored block. -/
def blockEntry (b : ThreadBlock) : Entry :=
  { term := toUint64 b.round.toInt, index := toUint64 b.height, data := .entries b.entries }

/-- The entries rebuilt from the stored blocks. -/
def blockEntries (s : Store) (threadID : String) : List Entry :=
  (s.getBlocksSince threadID 0 (s.getCommittedHeight threadID).toNat).map blockEntry

/-- Whether the database has an exact Raft state. -/
def hasExactState (s : Store) (threadID : String) : Bool :=
  let (snapshot, hardState, entries) := s.loadRaftState threadID
  !snapshot.isEmpty || !hardState.isEmpty || entries ≠ []

/-- Snapshot and entries of the exact state are put into a new storage. -/
def loadExact (s : Store) (threadID : String) : Option MemoryStorage :=
  let (snapshot, _, entries) := s.loadRaftState threadID
  let ms := if snapshot.isEmpty then MemoryStorage.new
    else (MemoryStorage.new.applySnapshot snapshot).getD .new
  ms.append entries

/-- The last index of the exact state. -/
def exactLastIndex (s : Store) (threadID : String) : Nat :=
  let (snapshot, _, entries) := s.loadRaftState threadID
  match entries.getLast? with
  | some e => e.index
  | none => if snapshot.isEmpty then 0 else snapshot.index

/-- The hard state is restored if it was saved; otherwise the log is rebuilt from the stored blocks.
The second component is `lastLogIndex`. -/
def loadLog (s : Store) (threadID : String) : Option (MemoryStorage × Nat) := do
  let ms ← loadExact s threadID
  let hardState := (s.loadRaftState threadID).2.1
  let last := exactLastIndex s threadID
  if hasExactState s threadID && !hardState.isEmpty then return (ms.setHardState hardState, last)
  else if 0 < s.getCommittedHeight threadID then
    let entries := blockEntries s threadID
    let ms ← ms.append entries
    return (ms, ((entries.getLast?).map Entry.index).getD last)
  else return (ms, last)

/-- The vote in the `Step` of a consensus state that the Raft backend has saved; other texts do not
parse. -/
def votedFor : Step → Nat
  | .raftVote n => n
  | _ => 0

/-- The storage `newRaftBackend` builds. -/
def loadStorage (s : Store) (threadID : String) : Option MemoryStorage := do
  let (ms, last) ← loadLog s threadID
  let cs := s.loadConsensusState threadID
  if !hasExactState s threadID && (1 < cs.height ∨ 0 < cs.round) then
    return ms.setHardState ⟨toUint64 cs.height, votedFor cs.step, min (toUint64 cs.round.toInt) last⟩
  else return ms

/-- Whether `raft.RestartNode` takes a storage: the commit index must not be below the entries
compacted away nor beyond the log. -/
def restartable (ms : MemoryStorage) : Bool :=
  ms.hardState.isEmpty || (ms.offset ≤ ms.hardState.commit ∧ ms.hardState.commit ≤ ms.lastIndex)

/-- `newRaftBackend`. -/
def newRaftBackend (N : Node) (env : Env) (T : Thread) (store : Store) :
    Except StartError (NodeStart × Backend) :=
  let (peerIDs, didByID) := peerTables T.replicaDids
  match peerIDs.lookup N.id.did with
  | none => .error (.notReplica N.id.did)
  | some (_, selfID) =>
    if env.fails 0 .releasePendingClaims then .error .releaseClaims
    else if env.readFails then .error .load
    else
      let store := store.releasePendingClaims T.id
      match loadStorage store T.id with
      | none => .error .panic
      | some storage =>
        let snapshot := (store.loadRaftState T.id).1
        let e : Backend :=
          { thread := T, selfID, peerIDs, didByID, storage
            appliedIndex := snapshot.index, appliedTerm := snapshot.term
            confState := if snapshot.isEmpty then ⟨voterIDs T⟩ else snapshot.confState
            pendingReady := none, changeSeq := 0, changes := [], store
            trace := [.write .releasePendingClaims] }
        if !hasExactState store T.id && store.getCommittedHeight T.id = 0 then
          .ok (.start (voterIDs T), e)
        else if restartable storage then .ok (.restart, e)
        else .error .panic

/-- The backend that is built over a storage. -/
def builtOn (T : Thread) (store : Store) (selfID : Nat) (storage : MemoryStorage) : Backend :=
  let snapshot := (store.loadRaftState T.id).1
  { thread := T, selfID, peerIDs := (peerTables T.replicaDids).1
    didByID := (peerTables T.replicaDids).2, storage
    appliedIndex := snapshot.index, appliedTerm := snapshot.term
    confState := if snapshot.isEmpty then ⟨voterIDs T⟩ else snapshot.confState
    pendingReady := none, changeSeq := 0, changes := [], store
    trace := [.write .releasePendingClaims] }

variable {start : NodeStart}

/-- Whatever is built is built on the storage that was loaded. -/
theorem newRaftBackend_eq_builtOn (h : newRaftBackend N env T s = .ok (start, e)) :
    ∃ selfID storage, loadStorage (s.releasePendingClaims T.id) T.id = some storage ∧
      e = builtOn T (s.releasePendingClaims T.id) selfID storage := by
  unfold newRaftBackend at h
  dsimp only at h
  split at h
  · cases h
  · rename_i selfID _
    split at h
    · cases h
    · split at h
      · cases h
      · split at h
        · cases h
        · rename_i storage hstorage
          refine ⟨selfID, storage, hstorage, ?_⟩
          split at h
          · exact (Prod.mk.inj (Except.ok.inj h)).2.symm
          · split at h
            · exact (Prod.mk.inj (Except.ok.inj h)).2.symm
            · cases h

/-- What a new backend starts with. -/
theorem newRaftBackend_eq_ok (h : newRaftBackend N env T s = .ok (start, e)) :
    e.thread = T ∧ e.pendingReady = none ∧ e.store = s.releasePendingClaims T.id ∧
      loadStorage (s.releasePendingClaims T.id) T.id = some e.storage ∧
      e.trace = [.write .releasePendingClaims] := by
  obtain ⟨selfID, storage, hstorage, rfl⟩ := newRaftBackend_eq_builtOn h
  exact ⟨rfl, rfl, rfl, hstorage, rfl⟩

/-- What a new backend takes for applied. -/
theorem newRaftBackend_appliedIndex (h : newRaftBackend N env T s = .ok (start, e)) :
    e.appliedIndex = ((s.releasePendingClaims T.id).loadRaftState T.id).1.index := by
  obtain ⟨selfID, storage, -, rfl⟩ := newRaftBackend_eq_builtOn h
  rfl

/-- The Raft library panics on a storage that cannot be built or be restarted from. -/
theorem newRaftBackend_ne_panic {ms : MemoryStorage}
    (hload : loadStorage (s.releasePendingClaims T.id) T.id = some ms)
    (hms : restartable ms = true) : newRaftBackend N env T s ≠ .error .panic := by
  intro h
  unfold newRaftBackend at h
  dsimp only at h
  rw [hload] at h
  split at h
  · cases h
  · split at h
    · cases h
    · split at h
      · cases h
      · dsimp only at h
        rw [if_pos hms] at h
        split at h <;> cases h

/-! ## Three replicas -/

namespace Trio

/-- The names of the replicas. -/
def did : Fin 3 → String
  | 0 => "d1"
  | 1 => "d2"
  | 2 => "d3"

/-- There are replicas: `0`, `1` and `2`. -/
instance neZero_three : NeZero 3 := ⟨by decide⟩

/-- A thread of three voters. -/
def thread : Thread where
  id := "t"
  creatorDid := "d1"
  replicaDids := ["d1", "d2", "d3"]
  n := 3
  f := 0
  epochMs := 1000
  createdAt := 0
  metadata := []

/-- A replica; nothing it signs is ever verified here. -/
def node (i : Fin 3) : Node := ⟨⟨did i, []⟩, ⟨fun _ _ => [], fun _ _ _ => true⟩⟩

/-- A step at time 1 during which nothing fails. -/
def calm : Env where
  now _ := 1
  now_pos _ := Int.one_pos
  fails _ _ := false
  readFails := false
  lead := 1
  proposeFails := false
  applyConfChange _ := none

/-- The backend of a replica whose database is empty. -/
def first (i : Fin 3) : Backend where
  thread
  selfID := i + 1
  peerIDs := (peerTables thread.replicaDids).1
  didByID := (peerTables thread.replicaDids).2
  storage := .new
  appliedIndex := 0
  appliedTerm := 0
  confState := ⟨[1, 2, 3]⟩
  pendingReady := none
  changeSeq := 0
  changes := []
  store := Store.empty.releasePendingClaims "t"
  trace := [.write .releasePendingClaims]

theorem newRaftBackend_first (i : Fin 3) :
    newRaftBackend (node i) calm thread .empty = .ok (.start [1, 2, 3], first i) := by
  fin_cases i <;> rfl

/-- An entry of thread entries. -/
def post : ThreadEntry where
  authorDid := "d1"
  payload := [1]
  kind := "message"
  authorSig := ""
  submittedAt := 1

/-- The log with one proposal of the first replica. -/
def log : List Entry := [⟨1, 1, .proposal ⟨[1], [post], "d1"⟩⟩]

/-- A batch of entries all of which are committed. -/
def batch (entries : List Entry) : Ready where
  hardState := ⟨1, 1, ((entries.map Entry.index).max?).getD 0⟩
  entries
  snapshot := .zero
  committedEntries := entries
  messages := []

end Trio

end MoltMesh.Raft

import MoltMesh.BlockHash
import MoltMesh.Lib.Table
import MoltMesh.Raftpb

/-!
# The store

The SQLite tables behind `daemon/thread/store*.go` that consensus uses, and the
methods of `Store` on them.  One store serves every thread of a node, so every
row carries its thread id.

Values written as JSON or protobuf are kept as values: what is read back is what
was written, with one exception that the rows show, namely that only five
fields of an entry survive in `thread_blocks`.  Columns that nothing reads
(`received_at`, `claimed_at`, `updated_at`) are left out.  A method here is the
effect of the call when the database accepts it; where a call fails is a matter
of the caller's environment.
-/

namespace MoltMesh

open MoltMesh.Lib Pb Raftpb

/-- The `Step` of a consensus state.  The Raft backend keeps the decimal text of its vote there. -/
inductive Step
  | propose
  | prevote
  | precommit
  | commit
  | raftVote (n : Nat)
deriving DecidableEq

/-- `ConsensusState`. -/
structure ConsensusState where
  height : Int
  round : Int32
  step : Step
  lockedRound : Int32
  lockedHash : String
  validRound : Int32
  validHash : String
deriving DecidableEq

/-- The state in which a height starts. -/
def ConsensusState.start (height : Int) : ConsensusState :=
  { height, round := 0, step := .propose, lockedRound := -1, lockedHash := "", validRound := -1,
    validHash := "" }

/-- A row of `thread_blocks`. -/
structure BlockRow where
  threadId : String
  height : Int
  round : Int32
  parentHash : String
  entries : List EntryJSON
  proposerDid : String
  proposerSig : String
  blockHash : String
  committedAt : Int
deriving DecidableEq

/-- The row `SaveBlock` writes. -/
def BlockRow.ofBlock (b : ThreadBlock) : BlockRow :=
  { b with entries := marshalEntries b.entries }

/-- `scanBlock`. -/
def BlockRow.block (r : BlockRow) : ThreadBlock :=
  { r with entries := unmarshalEntries r.entries }

/-- A row of `pending_entries`. -/
structure PendingRow where
  id : Int
  threadId : String
  payload : ThreadEntry
  submittedAt : Int
deriving DecidableEq

/-- The primary key of `thread_votes`. -/
def voteKey (v : Vote) : String × Int × Int32 × VoteType × String :=
  (v.threadId, v.height, v.round, v.type, v.voterDid)

/-- The tables. -/
structure Store where
  threads : Table Thread Thread.id
  blocks : Table BlockRow fun r => (r.threadId, r.height)
  votes : Table Vote voteKey
  pending : Table PendingRow PendingRow.id
  /-- The largest id `pending_entries` has handed out. -/
  pendingSeq : Int
  claims : Table Int id
  consensusState : Table (String × ConsensusState) Prod.fst
  raftHardState : Table (String × HardState) Prod.fst
  raftEntries : Table (String × Entry) fun r => (r.1, r.2.index)
  raftSnapshots : Table (String × Snapshot) Prod.fst

namespace Store

/-- A new database. -/
def empty : Store :=
  { threads := .empty, blocks := .empty, votes := .empty, pending := .empty, pendingSeq := 0,
    claims := .empty, consensusState := .empty, raftHardState := .empty, raftEntries := .empty,
    raftSnapshots := .empty }

/-! ## Votes and consensus state -/

/-- `SaveVote`. -/
def saveVote (s : Store) (v : Vote) : Store := { s with votes := s.votes.insertOrIgnore v }

/-- `GetVotes`. -/
def getVotes (s : Store) (threadID : String) (height : Int) (round : Int32) (vtype : VoteType) :
    List Vote :=
  s.votes.select fun v =>
    v.threadId = threadID ∧ v.height = height ∧ v.round = round ∧ v.type = vtype

/-- `SaveConsensusState`. -/
def saveConsensusState (s : Store) (threadID : String) (cs : ConsensusState) : Store :=
  { s with consensusState := s.consensusState.insertOrReplace (threadID, cs) }

/-- `LoadConsensusState`. -/
def loadConsensusState (s : Store) (threadID : String) : ConsensusState :=
  match s.consensusState.lookup threadID with
  | none => .start 1
  | some (_, cs) => cs

/-! ## Blocks -/

/-- `SaveBlock`. -/
def saveBlock (s : Store) (b : ThreadBlock) : Store :=
  { s with blocks := s.blocks.insertOrReplace (.ofBlock b) }

/-- `GetBlock`. -/
def getBlock (s : Store) (threadID : String) (height : Int) : Option ThreadBlock :=
  match s.blocks.lookup (threadID, height) with
  | none => none
  | some r => if 0 < r.committedAt then some r.block else none

/-- The committed rows of a thread. -/
def committedBlocks (s : Store) (threadID : String) : List BlockRow :=
  s.blocks.select fun r => r.threadId = threadID ∧ 0 < r.committedAt

/-- `SELECT MAX(height)` over the committed rows. -/
def maxHeight (s : Store) (threadID : String) : Option Int :=
  ((s.committedBlocks threadID).map BlockRow.height).max?

/-- `GetCommittedHeight`. -/
def getCommittedHeight (s : Store) (threadID : String) : Int := (s.maxHeight threadID).getD 0

/-- `GetBlocksSince`; a limit of `0` is none. -/
def getBlocksSince (s : Store) (threadID : String) (sinceHeight : Int) (limit : Nat) :
    List ThreadBlock :=
  let rows := orderBy BlockRow.height
    ((s.committedBlocks threadID).filter fun r => sinceHeight < r.height)
  (if limit = 0 then rows else rows.take limit).map BlockRow.block

/-! ## Pending entries -/

/-- `EnqueueEntry`, at time `now`. -/
def enqueueEntry (s : Store) (threadID : String) (entry : ThreadEntry) (now : Int) : Store :=
  let id := s.pendingSeq + 1
  { s with
    pending := s.pending.insertOrReplace { id, threadId := threadID, payload := entry, submittedAt := now }
    pendingSeq := id }

/-- The pending rows of a thread in the order in which they are handed out. -/
def pendingEntries (s : Store) (threadID : String) : List PendingRow :=
  orderBy PendingRow.submittedAt (s.pending.select fun r => r.threadId = threadID)

/-- `DELETE FROM pending_entries WHERE id = ?`. -/
def deletePending (s : Store) (id : Int) : Store :=
  { s with pending := s.pending.deleteWhere fun r => r.id = id }

/-- `DELETE FROM pending_entry_claims WHERE pending_id = ?`. -/
def deleteClaim (s : Store) (id : Int) : Store :=
  { s with claims := s.claims.deleteWhere fun c => c = id }

/-- `ClaimPendingEntries`: the claimed ids with their entries, and the store with the claims. -/
def claimPendingEntries (s : Store) (threadID : String) (limit : Nat) :
    List Int × List ThreadEntry × Store :=
  let rows := ((s.pendingEntries threadID).filter fun r => r.id ∉ s.claims.rows).take limit
  (rows.map PendingRow.id, rows.map PendingRow.payload,
    { s with claims := rows.foldl (fun t r => t.insertOrIgnore r.id) s.claims })

/-- `ReleasePendingClaims`. -/
def releasePendingClaims (s : Store) (threadID : String) : Store :=
  { s with claims := s.claims.deleteWhere fun c =>
      c ∈ (s.pending.select fun r => r.threadId = threadID).map PendingRow.id }

/-- `ReleasePendingClaimIDs`. -/
def releasePendingClaimIDs (s : Store) (ids : List Int) : Store := ids.foldl deleteClaim s

/-- `AppendBlockAndAckPending`: the block at the next height and the store after the transaction.
There is no result when the transaction is rolled back because the height is taken. -/
def appendBlockAndAckPending (s : Store) (threadID : String) (pendingIDs : List Int)
    (fill : Int → String → ThreadBlock) : Option (ThreadBlock × Store) :=
  let (height, parentHash) := match s.maxHeight threadID with
    | none => ((1 : Int), "")
    | some m => (m + 1, ((s.blocks.lookup (threadID, m)).map BlockRow.blockHash).getD "")
  let b := fill height parentHash
  match s.blocks.insert (.ofBlock b) with
  | none => none
  | some blocks =>
    some (b, pendingIDs.foldl (fun t id => (t.deletePending id).deleteClaim id)
      { s with blocks := blocks })

/-! ## Raft state -/

/-- `SaveRaftReady`, one transaction. -/
def saveRaftReady (s : Store) (threadID : String) (hardState : HardState) (entries : List Entry) :
    Store :=
  { s with
    raftHardState := if hardState.isEmpty then s.raftHardState
      else s.raftHardState.insertOrReplace (threadID, hardState)
    raftEntries := entries.foldl (fun t e => t.insertOrReplace (threadID, e)) s.raftEntries }

/-- `LoadRaftState`. -/
def loadRaftState (s : Store) (threadID : String) : Snapshot × HardState × List Entry :=
  let snapshot := ((s.raftSnapshots.lookup threadID).map Prod.snd).getD .zero
  let hardState := ((s.raftHardState.lookup threadID).map Prod.snd).getD ⟨0, 0, 0⟩
  let rows := s.raftEntries.select fun r => r.1 = threadID ∧ snapshot.index < r.2.index
  (snapshot, hardState, (orderBy (fun r => (r.2.index : Int)) rows).map Prod.snd)

/-- `SaveRaftSnapshot`, one transaction. -/
def saveRaftSnapshot (s : Store) (threadID : String) (snapshot : Snapshot) : Store :=
  { s with
    raftSnapshots := s.raftSnapshots.insertOrReplace (threadID, snapshot)
    raftEntries := s.raftEntries.deleteWhere fun r => r.1 = threadID ∧ r.2.index ≤ snapshot.index }

/-- `SaveThread`. -/
def saveThread (s : Store) (t : Thread) : Store := { s with threads := s.threads.insertOrReplace t }

/-- `ImportHistory`, one transaction.  A descriptor without an id is refused. -/
def importHistory (s : Store) (t : Thread) (blocks : List ThreadBlock) : Option Store :=
  if t.id = "" then none else some (blocks.foldl saveBlock (s.saveThread t))

end Store

end MoltMesh

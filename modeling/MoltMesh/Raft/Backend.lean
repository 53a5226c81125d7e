import MoltMesh.Descriptor
import MoltMesh.Raft.Storage
import MoltMesh.Store

/-!
# The Raft backend

`daemon/thread/raft.go`, function by function.  The Raft library is outside the
repository: what it hands to the backend (`Ready`, the leader it knows, whether it
takes a proposal, the voters after a configuration change) is the environment's
to choose, and what the backend hands to it is recorded.

Everything the backend does to the outside is recorded in `trace`, in order.  The
length of the trace serves as the position in the run at which a statement
succeeds or fails and at which the clock is read, so that an environment stands for
every pattern of failures.
-/

namespace MoltMesh.Raft

open MoltMesh.Lib Pb Raftpb

/-- `raftMaxEntriesPerMsg`. -/
def raftMaxEntriesPerMsg : Nat := 64

/-- The parts of a `raftpb.Message` the backend looks at or that carry log data. -/
structure Message where
  /-- Whether the type is `MsgProp`, a proposal forwarded to the leader. -/
  isProp : Bool
  toID : Nat
  term : Nat
  entries : List Entry
deriving DecidableEq

/-- `raft.Ready`. -/
structure Ready where
  hardState : HardState
  entries : List Entry
  snapshot : Snapshot
  committedEntries : List Entry
  messages : List Message
deriving DecidableEq

/-- The payloads of a `pb.ConsensusMsg` the backend sends and receives. -/
inductive Msg
  | committedBlock (b : ThreadBlock)
  /-- `RaftAppendEntries`, which carries a `raftpb.Message` as text. -/
  | raft (leaderDid : String) (m : Message)
  /-- Anything else, and a `RaftAppendEntries` that does not decode. -/
  | other
deriving DecidableEq

/-- The statements and transactions that change the store. -/
inductive Write
  | saveRaftReady (hs : HardState) (entries : List Entry)
  | saveRaftSnapshot (s : Snapshot)
  | saveConsensusState (cs : ConsensusState)
  /-- `AppendBlockAndAckPending`, with the block it has filled. -/
  | appendBlock (pendingIDs : List Int) (b : ThreadBlock)
  | saveBlock (b : ThreadBlock)
  | saveThread (t : Thread)
  | enqueueEntry (entry : ThreadEntry) (now : Int)
  /-- `ClaimPendingEntries`, with the ids it claims. -/
  | claimPendingEntries (ids : List Int)
  | releasePendingClaims
  | releasePendingClaimIDs (ids : List Int)
deriving DecidableEq

/-- What a statement does to the store of thread `threadID`. -/
def Write.apply (threadID : String) (s : Store) : Write → Store
  | saveRaftReady hs entries => s.saveRaftReady threadID hs entries
  | saveRaftSnapshot snap => s.saveRaftSnapshot threadID snap
  | saveConsensusState cs => s.saveConsensusState threadID cs
  | appendBlock ids b => ((s.appendBlockAndAckPending threadID ids fun _ _ => b).map Prod.snd).getD s
  | saveBlock b => s.saveBlock b
  | saveThread t => s.saveThread t
  | enqueueEntry entry now => s.enqueueEntry threadID entry now
  | claimPendingEntries ids =>
    { s with claims := ids.foldl (fun t id => t.insertOrIgnore id) s.claims }
  | releasePendingClaims => s.releasePendingClaims threadID
  | releasePendingClaimIDs ids => s.releasePendingClaimIDs ids

/-- What can be observed of a step. -/
inductive Effect
  /-- A transaction the database has committed. -/
  | write (w : Write)
  /-- A transaction that has failed and left nothing behind. -/
  | failed (w : Write)
  /-- A message handed to `broadcast`. -/
  | broadcast (m : Msg)
  /-- A proposal the Raft node has taken. -/
  | propose (p : RaftProposal)
  /-- A configuration change the Raft node has taken. -/
  | proposeConfChange (change : ConfChange) (token : String)
  /-- A message handed to the Raft node. -/
  | step (m : Message)
  /-- A call of `onCommit`. -/
  | commit (b : ThreadBlock)
  /-- A waiting caller of `ProposeVoterChange` is told that its change is done. -/
  | voterChange (token : String)
deriving DecidableEq

/-- What the environment decides during one step. -/
structure Env where
  /-- `time.Now()` in milliseconds since 1970, by position in the trace. -/
  now : Nat → Int
  now_pos : ∀ k, 0 < now k
  /-- The transactions that fail, by position in the trace. -/
  fails : Nat → Write → Bool
  /-- Whether the query of `GetBlock` fails. -/
  readFails : Bool
  /-- The leader the Raft node knows, `0` if none. -/
  lead : Nat
  /-- Whether the Raft node returns an error for a proposal. -/
  proposeFails : Bool
  /-- The voters the Raft node returns for the configuration change of an entry. -/
  applyConfChange : Entry → Option ConfState

/-- The identity of a replica and the signature scheme. -/
structure Node where
  id : Identity
  crypto : Ed25519

/-- `RaftBackend`. -/
structure Backend where
  thread : Thread
  selfID : Nat
  peerIDs : Table (String × Nat) Prod.fst
  didByID : Table (Nat × String) Prod.fst
  storage : MemoryStorage
  appliedIndex : Nat
  appliedTerm : Nat
  confState : ConfState
  pendingReady : Option Ready
  changeSeq : Nat
  /-- The tokens of the changes that have a waiting caller. -/
  changes : List String
  store : Store
  trace : List Effect

variable (N : Node) (env : Env)

/-- Whether a statement executed now fails. -/
def refused (e : Backend) (w : Write) : Bool := env.fails e.trace.length w

/-- Note an effect. -/
def note (e : Backend) (a : Effect) : Backend := { e with trace := e.trace ++ [a] }

/-- Execute a transaction. -/
def write (e : Backend) (w : Write) : Backend :=
  if refused env e w then note e (.failed w)
  else { note e (.write w) with store := w.apply e.thread.id e.store }

/-! ## The descriptor -/

/-- Re-sign and save the descriptor, if this replica is the creator's. -/
def saveDescriptor (e : Backend) : Backend :=
  if N.id.did ≠ e.thread.creatorDid then e
  else match signDescriptor N.crypto e.thread N.id with
    | none => e
    | some th => write env { e with thread := th } (.saveThread th)

/-- The membership entry `entry` names a DID that is not known yet. -/
def newObserver (e : Backend) (entry : ThreadEntry) : Option String :=
  let did := textOf entry.payload
  if entry.kind ≠ "membership:add-observer" then none
  else if did = "" then none
  else if (e.peerIDs.lookup did).isSome then none
  else some did

/-- A DID is added to the replicas under the next id. -/
def addObserver (e : Backend) (did : String) : Backend :=
  let dids := e.thread.replicaDids ++ [did]
  { e with
    thread := { e.thread with replicaDids := dids }
    peerIDs := e.peerIDs.insertOrReplace (did, dids.length)
    didByID := e.didByID.insertOrReplace (dids.length, did) }

/-- The loop of `applyMembershipEntries`, with the flag `changed`. -/
def addObservers (e : Backend) (entries : List ThreadEntry) : Backend × Bool :=
  entries.foldl (fun (e, changed) entry =>
    match newObserver e entry with
    | none => (e, changed)
    | some did => (addObserver e did, true)) (e, false)

/-- `applyMembershipEntries`. -/
def applyMembershipEntries (e : Backend) (entries : List ThreadEntry) : Backend :=
  let (e, changed) := addObservers e entries
  if changed then saveDescriptor N env e else e

/-- `persistVoterCount`. -/
def persistVoterCount (e : Backend) (n : Nat) : Backend :=
  if n = 0 ∨ Int32.ofNat n = e.thread.n then e
  else saveDescriptor N env { e with thread := { e.thread with n := Int32.ofNat n } }

/-! ## Applying the log -/

/-- The block `commitBlock` fills at the height and over the parent it is given. -/
def fillBlock (threadID : String) (term : Nat) (entries : List ThreadEntry) (proposerDID : String)
    (now : Int) (height : Int) (parentHash : String) : ThreadBlock :=
  let b : ThreadBlock :=
    { threadId := threadID, height, round := Int32.ofNat term, parentHash, entries,
      proposerDid := proposerDID, proposerSig := "", blockHash := "", committedAt := now }
  { b with blockHash := raftBlockHash b }

/-- `commitBlock`. -/
def commitBlock (e : Backend) (entry : Entry) (entries : List ThreadEntry) (pendingIDs : List Int)
    (proposerDID : String) : Backend :=
  let fill := fillBlock e.thread.id entry.term entries proposerDID (env.now e.trace.length)
  match e.store.appendBlockAndAckPending e.thread.id pendingIDs fill with
  -- The height is taken and the transaction is rolled back.
  | none => note e (.failed (.appendBlock pendingIDs (fill 0 "")))
  | some (block, _) =>
    if refused env e (.appendBlock pendingIDs block) then
      note e (.failed (.appendBlock pendingIDs block))
    else
      let e := write env e (.appendBlock pendingIDs block)
      let e := applyMembershipEntries N env e entries
      note (note e (.broadcast (.committedBlock block))) (.commit block)

/-- `completeVoterChange`. -/
def completeVoterChange (e : Backend) (context : String) : Backend :=
  if context = "" ∨ context ∉ e.changes then e
  else note { e with changes := e.changes.filter fun t => t ≠ context } (.voterChange context)

/-- A configuration change is applied to the Raft node, and the voters it returns are kept. -/
def applyConfChange (e : Backend) (entry : Entry) : Backend :=
  match env.applyConfChange entry with
  | none => e
  | some cs => persistVoterCount N env { e with confState := cs } cs.voters.length

/-- The owner of the pending rows of a proposal; an older proposal names none. -/
def ownerOf (p : RaftProposal) : String := if p.ownerDID = "" then N.id.did else p.ownerDID

/-- One round of the loop of `handleReady` over the committed entries. -/
def applyEntry (e : Backend) (entry : Entry) : Backend :=
  let e := { e with appliedIndex := entry.index, appliedTerm := entry.term }
  match entry.data with
  | .confChange _ => applyConfChange N env e entry
  | .confChangeV2 _ context => completeVoterChange (applyConfChange N env e entry) context
  | .empty => e
  | .malformed => e
  | .proposal p =>
    let owner := ownerOf N p
    let pendingIDs := if owner ≠ N.id.did then [] else p.pendingIDs
    commitBlock N env e entry p.entries pendingIDs owner
  | .entries l => commitBlock N env e entry l [] N.id.did

/-! ## The Ready loop -/

/-- Why `handleReady` does not return `true`. -/
inductive Stop
  /-- It returns `false`, and the batch is tried again. -/
  | retry (e : Backend)
  /-- The Raft library panics. -/
  | panic (e : Backend)

/-- The call of `SaveRaftReady`. -/
def saveReady (e : Backend) (rd : Ready) : Except Stop Backend :=
  let w := .saveRaftReady rd.hardState rd.entries
  if refused env e w then .error (.retry (note e (.failed w))) else .ok (write env e w)

/-- A snapshot sent by the leader is saved and applied; that it is out of date is ignored. -/
def installSnapshot (e : Backend) (s : Snapshot) : Except Stop Backend :=
  if s.isEmpty then .ok e
  else
    let w := .saveRaftSnapshot s
    if refused env e w then .error (.retry (note e (.failed w)))
    else
      let e := write env e w
      .ok { e with
        storage := (e.storage.applySnapshot s).getD e.storage
        appliedIndex := s.index, appliedTerm := s.term, confState := s.confState }

/-- The state `persistHardState` saves. -/
def hardStateRecord (hs : HardState) : ConsensusState :=
  { height := hs.term, round := Int32.ofNat hs.commit, step := .raftVote hs.vote, lockedRound := 0,
    lockedHash := "", validRound := 0, validHash := "" }

/-- `persistHardState`, and the hard state of the storage. -/
def persistHardState (e : Backend) (hs : HardState) : Backend :=
  if hs.isEmpty then e
  else
    let e := write env e (.saveConsensusState (hardStateRecord hs))
    { e with storage := e.storage.setHardState hs }

/-- The entries of a batch are appended to the storage. -/
def appendEntries (e : Backend) (entries : List Entry) : Except Stop Backend :=
  match e.storage.append entries with
  | none => .error (.panic e)
  | some ms => .ok { e with storage := ms }

/-- `sendRaftMsg`. -/
def sendRaftMsg (e : Backend) (m : Message) : Backend :=
  let toDID := ((e.didByID.lookup m.toID).map Prod.snd).getD ""
  if toDID = "" ∧ m.toID ≠ 0 then e else note e (.broadcast (.raft N.id.did m))

/-- `handleReady`. -/
def handleReady (e : Backend) (rd : Ready) : Except Stop Backend := do
  let e ← saveReady env e rd
  let e ← installSnapshot env e rd.snapshot
  let e := persistHardState env e rd.hardState
  let e ← appendEntries e rd.entries
  let e := rd.messages.foldl (sendRaftMsg N) e
  return rd.committedEntries.foldl (applyEntry N env) e

/-- `processReady`. -/
def processReady (e : Backend) (rd : Ready) : Except Backend Backend :=
  match handleReady N env e rd with
  | .ok e => .ok { e with pendingReady := none }
  | .error (.retry e) => .ok { e with pendingReady := some rd }
  | .error (.panic e) => .error e

/-- `TryReady`, with the batch the Raft node has ready; a batch that is to be tried again comes
first. -/
def tryReady (e : Backend) (rd : Ready) : Except Backend Backend :=
  processReady N env e (e.pendingReady.getD rd)

/-! ## Inbound messages and proposals -/

/-- `applyCommittedBlock`. -/
def applyCommittedBlock (e : Backend) (block : ThreadBlock) : Backend :=
  if env.readFails = false ∧ (e.store.getBlock e.thread.id block.height).isSome then e
  else
    let w := .saveBlock block
    if refused env e w then note e (.failed w)
    else
      let e := write env e w
      let e := applyMembershipEntries N env e block.entries
      note e (.commit block)

/-- `proposePending`. -/
def proposePending (e : Backend) : Backend :=
  if env.lead = 0 then e
  else
    let (ids, entries, _) := e.store.claimPendingEntries e.thread.id raftMaxEntriesPerMsg
    let w := .claimPendingEntries ids
    if refused env e w then note e (.failed w)
    else if entries = [] then e
    else
      let e := write env e w
      if env.proposeFails then write env e (.releasePendingClaimIDs ids)
      else note e (.propose ⟨ids, entries, N.id.did⟩)

/-- `handleInbound`. -/
def handleInbound (e : Backend) (msg : Msg) : Backend :=
  match msg with
  | .committedBlock block => applyCommittedBlock N env e block
  | .other => e
  | .raft _ rm =>
    if rm.toID ≠ 0 ∧ rm.toID ≠ e.selfID then e else proposePending N env (note e (.step rm))

/-- `Tick`. -/
def tick (e : Backend) : Backend :=
  if e.pendingReady.isSome then e else proposePending N env e

/-- `Snapshot`. -/
def snapshot (e : Backend) : Except Backend Backend :=
  if e.appliedIndex = 0 then .ok e
  else match e.storage.createSnapshot e.appliedIndex e.confState with
    | .panic => .error e
    | .outOfDate => .ok e
    | .ok s ms =>
      let e := { e with storage := ms }
      let w := .saveRaftSnapshot s
      if refused env e w then .ok (note e (.failed w))
      else
        let e := write env e w
        match e.storage.compact e.appliedIndex with
        | none => .error e
        | some ms => .ok { e with storage := ms }

/-- `beginVoterChange`; a replica that is not the leader, does not know the DID or whose Raft node
returns an error reports that error to the caller. -/
def beginVoterChange (e : Backend) (did : String) (add : Bool) : Backend :=
  if env.lead ≠ e.selfID then e
  else match e.peerIDs.lookup did with
    | none => e
    | some (_, id) =>
      let token := toString (e.changeSeq + 1)
      let e := { e with changeSeq := e.changeSeq + 1 }
      if env.proposeFails then e
      else note { e with changes := e.changes ++ [token] }
        (.proposeConfChange (if add then .addNode id else .removeNode id) token)

/-! ## Steps -/

/-- The calls a replica receives. -/
inductive Event
  | ready (rd : Ready)
  | inbound (msg : Msg)
  | tick
  | snapshot
  | voterChange (did : String) (add : Bool)
  | enqueue (entry : ThreadEntry)
deriving DecidableEq

/-- One step of a replica; a panic ends in the state it happened in. -/
def step (e : Backend) : Event → Except Backend Backend
  | .ready rd => tryReady N env e rd
  | .inbound msg => .ok (handleInbound N env e msg)
  | .tick => .ok (tick N env e)
  | .snapshot => snapshot env e
  | .voterChange did add => .ok (beginVoterChange env e did add)
  | .enqueue entry => .ok (write env e (.enqueueEntry entry (env.now e.trace.length)))

/-- The state a step ends in, also when it panics. -/
def final : Except Backend Backend → Backend
  | .ok e => e
  | .error e => e

end MoltMesh.Raft

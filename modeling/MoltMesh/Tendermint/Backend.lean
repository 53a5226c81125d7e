import MoltMesh.Identity
import MoltMesh.Store

/-!
# The Tendermint backend

`daemon/thread/tendermint.go`, handler by handler.  A handler maps the state of
the backend to the state after it, or to the state at which the program
panicked.  The handlers run one at a time, so a step of the model is one call of
`Pump`, `StepInbound`, `Tick` or `EnqueueEntry`; the messages `Pump` drains from
its channel are `StepInbound` calls of their own.

Everything a handler does to the outside is recorded in `trace`, in order: the
statements the database accepted, the messages handed to `broadcast`, and marks
for two things the outside does not see, the calls of `commitBlock` with the
height the replica was at and the locks given up on a proposal.  What the
source leaves open is the environment's to choose (`Env`): the clock, the order
in which Go iterates over a map, and which database calls fail.
-/

namespace MoltMesh.Tendermint

open MoltMesh.Lib Pb

/-- `defaultEpochMs`. -/
def defaultEpochMs : Int := 1000

/-- `defaultTimeoutMs`. -/
def defaultTimeoutMs : Int := 500

/-- `maxPendingPerBlock`. -/
def maxPendingPerBlock : Nat := 64

/-- The statements the backend executes that change the store. -/
inductive Write
  | saveVote (v : Vote)
  | saveBlock (b : ThreadBlock)
  | saveConsensusState (cs : ConsensusState)
  | deletePending (id : Int)
  | enqueueEntry (entry : ThreadEntry) (now : Int)
deriving DecidableEq

/-- What a statement does to the store of thread `threadID`. -/
def Write.apply (threadID : String) (s : Store) : Write → Store
  | saveVote v => s.saveVote v
  | saveBlock b => s.saveBlock b
  | saveConsensusState cs => s.saveConsensusState threadID cs
  | deletePending id => s.deletePending id
  | enqueueEntry entry now => s.enqueueEntry threadID entry now

/-- The queries the backend makes. -/
inductive Read
  | getVotes
  | getBlock
  | pendingEntries
deriving DecidableEq

/-- What can be observed of a step. -/
inductive Effect
  /-- A statement the database accepted. -/
  | write (w : Write)
  /-- A message handed to `broadcast`. -/
  | broadcast (m : ConsensusMsg)
  /-- A call of `commitBlock` with `block` while `cs.Height` is `height`. -/
  | commit (height : Int) (block : ThreadBlock)
  /-- A lock is given up on a proposal for round `round` of `height`. -/
  | unlock (height : Int) (round : Int32)
deriving DecidableEq

/-- What the environment decides during one step. -/
structure Env where
  /-- `time.Now()` in milliseconds since 1970. -/
  now : Int
  now_pos : 0 < now
  /-- The order in which a `range` over a map visits its keys. -/
  iterate : List (String × Nat) → List (String × Nat)
  iterate_perm : ∀ l, (iterate l).Perm l
  /-- The statements that fail. -/
  fails : Write → Bool
  /-- The queries that fail. -/
  readFails : Read → Bool

/-- What a replica is built from: the thread descriptor, its identity, and the signature scheme. -/
structure Node where
  thread : Thread
  id : Identity
  crypto : Ed25519

/-- `TendermintBackend`. -/
structure Backend where
  cs : ConsensusState
  /-- The block of `e.proposal`; nothing else of the proposal is read once it is accepted. -/
  proposal : Option ThreadBlock
  /-- The deadlines, in milliseconds since 1970; `none` is the zero time. -/
  proposeAt : Option Int
  prevoteAt : Option Int
  precommitAt : Option Int
  /-- Whether `Pump` has run, and with it whether `broadcast` is set. -/
  started : Bool
  /-- The votes of the map `futureVotes`, in order of arrival; the key of a vote is its round. -/
  futureVotes : List Vote
  store : Store
  trace : List Effect

/-- `newTendermintBackend`. -/
def newTendermintBackend (N : Node) (store : Store) : Backend :=
  { cs := store.loadConsensusState N.thread.id, proposal := none, proposeAt := none,
    prevoteAt := none, precommitAt := none, started := false, futureVotes := [], store, trace := [] }

/-- The propose timeout. -/
def epochMs (T : Thread) : Int := if T.epochMs = 0 then defaultEpochMs else T.epochMs

/-- `quorum`. -/
def quorum (T : Thread) : Int := 2 * T.f.toInt + 1

/-- `ReplicaDids[(height + round) % len(ReplicaDids)]`.  Go's remainder has the sign of the
dividend; a division by zero and a negative index panic. -/
def proposerAt (T : Thread) (height : Int) (round : Int32) : Option String :=
  let idx := (height + round.toInt).tmod T.replicaDids.length
  if T.replicaDids.length = 0 ∨ idx < 0 then none else T.replicaDids[idx.toNat]?

/-- `isValidProposer`; there is no result when the index panics. -/
def isValidProposer (T : Thread) (did : String) (height : Int) (round : Int32) : Option Bool :=
  (proposerAt T height round).map fun p => p = did

/-- `isKnownValidator`. -/
def isKnownValidator (T : Thread) (did : String) : Bool := did ∈ T.replicaDids

/-- Why a signature is not accepted. -/
inductive SigError
  | decodeSig
  | pubKey (err : String)
  | invalid
deriving DecidableEq

/-- The common part of `verifyProposalSig` and `verifyVoteSig`; there is no result when
`ed25519.Verify` panics. -/
def verifySig (C : Ed25519) (did : String) (sigData : List UInt8) (signature : String) :
    Option (Except SigError Unit) :=
  match hexDecode signature with
  | none => some (.error .decodeSig)
  | some sigBytes =>
    match Identity.pubKeyFromDID did with
    | .error err => some (.error (.pubKey err))
    | .ok pub =>
      (Identity.verifyWithPub C pub sigData sigBytes).map fun ok =>
        if ok then .ok () else .error .invalid

/-- `verifyProposalSig`; `block` is `prop.Block`. -/
def verifyProposalSig (C : Ed25519) (prop : Proposal) (block : ThreadBlock) :
    Option (Except SigError Unit) :=
  verifySig C prop.proposerDid
    (proposalSigData prop.threadId prop.height prop.round block.blockHash) prop.signature

/-- `verifyVoteSig`. -/
def verifyVoteSig (C : Ed25519) (v : Vote) : Option (Except SigError Unit) :=
  verifySig C v.voterDid (voteSigData v.threadId v.height v.round v.type v.blockHash) v.signature

/-- The map `counts` of `majority`. -/
def counts (votes : List Vote) : List (String × Nat) :=
  (votes.map Vote.blockHash).dedup.map fun h => (h, votes.countP fun v => v.blockHash = h)

/-- `majority`. -/
def majority (env : Env) (votes : List Vote) : String × Nat :=
  (env.iterate (counts votes)).foldl
    (fun best c => if best.2 < c.2 then c else best) ("", 0)

variable (N : Node) (env : Env)

/-- Execute a statement. -/
def write (e : Backend) (w : Write) : Backend :=
  if env.fails w then e
  else { e with store := w.apply N.thread.id e.store, trace := e.trace ++ [.write w] }

/-- Execute statements one after the other. -/
def writeAll (e : Backend) (ws : List Write) : Backend := ws.foldl (write N env) e

/-- `broadcast`. -/
def broadcast (e : Backend) (p : Payload) : Backend :=
  { e with trace := e.trace ++ [.broadcast ⟨N.thread.id, p⟩] }

/-- `e.store.SaveConsensusState(e.thread.Id, e.cs)`. -/
def saveState (e : Backend) : Backend := write N env e (.saveConsensusState e.cs)

/-- `isProposer`; there is no result when the index panics. -/
def isProposer (e : Backend) : Option Bool :=
  isValidProposer N.thread N.id.did e.cs.height e.cs.round

/-! ## Proposing -/

/-- `DequeuePendingEntries`; there is no result when the query fails. -/
def dequeuePendingEntries (e : Backend) (limit : Nat) : Option (List ThreadEntry × Backend) :=
  if env.readFails .pendingEntries then none
  else
    let rows := (e.store.pendingEntries N.thread.id).take limit
    some (rows.map PendingRow.payload, writeAll N env e (rows.map fun r => .deletePending r.id))

/-- The parent hash of a new block. -/
def parentHash (e : Backend) : String :=
  if 1 < e.cs.height ∧ env.readFails .getBlock = false then
    match e.store.getBlock N.thread.id (e.cs.height - 1) with
    | some prev => prev.blockHash
    | none => ""
  else ""

/-- The block `buildProposal` builds from the dequeued entries. -/
def newBlock (e : Backend) (entries : List ThreadEntry) : ThreadBlock :=
  let block : ThreadBlock :=
    { threadId := N.thread.id, height := e.cs.height, round := e.cs.round,
      parentHash := parentHash N env e, entries, proposerDid := N.id.did, proposerSig := "",
      blockHash := "", committedAt := 0 }
  let blockHash := computeBlockHash block
  let sig := N.id.sign N.crypto (proposalSigData N.thread.id e.cs.height e.cs.round blockHash)
  { block with blockHash, proposerSig := hexEncode sig }

/-- The proof-of-lock round `buildProposal` announces. -/
def polRound (e : Backend) : Int32 :=
  if 0 ≤ e.cs.validRound ∧ e.cs.validHash ≠ "" then e.cs.validRound else -1

/-- The proposal `buildProposal` returns for a block. -/
def newProposal (e : Backend) (block : ThreadBlock) : Proposal :=
  { threadId := N.thread.id, height := e.cs.height, round := e.cs.round, polRound := polRound e,
    block := some block, proposerDid := N.id.did, signature := block.proposerSig }

/-- `buildProposal`: the block, its proposal and the state after dequeuing; there is no result when
the query for the entries fails. -/
def buildProposal (e : Backend) : Option (ThreadBlock × Proposal × Backend) :=
  match dequeuePendingEntries N env e maxPendingPerBlock with
  | none => none
  | some (entries, e') =>
    let block := newBlock N env e' entries
    some (block, newProposal N e' block, e')

/-- `enterPropose`. -/
def enterPropose (e : Backend) : Except Backend Backend :=
  match isProposer N e with
  | none => .error e
  | some false => .ok e
  | some true =>
    match buildProposal N env e with
    | none => .ok e
    | some (block, proposal, e') =>
      if block.blockHash.utf8ByteSize < 8 then .ok e'
      else .ok (broadcast N e' (.proposal proposal))

/-- `e.proposeAt = time.Now().Add(epoch)`. -/
def armPropose (e : Backend) : Backend :=
  { e with proposeAt := some (env.now + epochMs N.thread) }

/-- `enterPropose` followed by arming the propose deadline. -/
def proposeAndArm (e : Backend) : Except Backend Backend := do
  let e ← enterPropose N env e
  return armPropose N env e

/-! ## Voting -/

/-- The vote `sendVote` signs. -/
def newVote (e : Backend) (vtype : VoteType) (blockHash : String) : Vote :=
  let sigData := voteSigData N.thread.id e.cs.height e.cs.round vtype blockHash
  { threadId := N.thread.id, height := e.cs.height, round := e.cs.round, type := vtype, blockHash,
    voterDid := N.id.did, signature := hexEncode (N.id.sign N.crypto sigData) }

/-- `sendVote`. -/
def sendVote (e : Backend) (vtype : VoteType) (blockHash : String) : Backend :=
  let v := newVote N e vtype blockHash
  broadcast N (write N env e (.saveVote v)) (.vote v)

/-- The end of every arm that casts a prevote. -/
def toPrevote (e : Backend) : Backend :=
  let e := saveState N env { e with cs := { e.cs with step := .prevote } }
  { e with prevoteAt := some (env.now + defaultTimeoutMs) }

/-- The end of every arm that casts a precommit. -/
def toPrecommit (e : Backend) : Backend :=
  let e := saveState N env { e with cs := { e.cs with step := .precommit } }
  { e with precommitAt := some (env.now + defaultTimeoutMs) }

/-- `lockedOnDifferent`. -/
def lockedOnDifferent (cs : ConsensusState) (blockHash : String) : Bool :=
  0 ≤ cs.lockedRound ∧ cs.lockedHash ≠ blockHash

/-- `polcSupersedes`. -/
def polcSupersedes (cs : ConsensusState) (prop : Proposal) : Bool := cs.lockedRound < prop.polRound

/-- The lock is cleared. -/
def unlock (e : Backend) : Backend :=
  { e with
    cs := { e.cs with lockedRound := -1, lockedHash := "" }
    trace := e.trace ++ [.unlock e.cs.height e.cs.round] }

/-- `handleProposal` from the point where the proposal has passed its checks. -/
def acceptProposal (e : Backend) (prop : Proposal) (block : ThreadBlock) : Backend :=
  let e := { e with proposal := some block }
  let e :=
    if lockedOnDifferent e.cs block.blockHash && !polcSupersedes e.cs prop then
      sendVote N env e .prevote ""
    else
      let e := if lockedOnDifferent e.cs block.blockHash && polcSupersedes e.cs prop then unlock e
        else e
      sendVote N env e .prevote block.blockHash
  toPrevote N env e

/-- `handleProposal`. -/
def handleProposal (e : Backend) (prop : Proposal) : Except Backend Backend :=
  if prop.height ≠ e.cs.height ∨ prop.round ≠ e.cs.round then .ok e
  else if e.cs.step ≠ .propose then .ok e
  else match isValidProposer N.thread prop.proposerDid prop.height prop.round with
    | none => .error e
    | some false => .ok e
    | some true =>
      match prop.block with
      | none => .ok e
      | some block =>
        match verifyProposalSig N.crypto prop block with
        | none => .error e
        | some (.error _) => .ok e
        | some (.ok ()) => .ok (acceptProposal N env e prop block)

/-- A call of `commitBlock` is noted.  `block` is the block of `e.proposal`, so the proposal shows
its timestamp too. -/
def markCommit (e : Backend) (block : ThreadBlock) : Backend :=
  { e with proposal := some block, trace := e.trace ++ [.commit e.cs.height block] }

/-- A new height: lock, valid value, proposal and buffered votes are cleared. -/
def enterHeight (e : Backend) (height : Int) : Backend :=
  saveState N env { e with cs := .start height, proposal := none, futureVotes := [] }

/-- `commitBlock`. -/
def commitBlock (e : Backend) (block : ThreadBlock) : Except Backend Backend :=
  let block := { block with committedAt := env.now }
  let e := markCommit e block
  if env.fails (.saveBlock block) then .ok e
  else
    let e := write N env e (.saveBlock block)
    -- The log line slices the first eight bytes of the hash.
    if block.blockHash.utf8ByteSize < 8 then .error e
    else enterPropose N env (armPropose N env (enterHeight N env e (block.height + 1)))

/-- Lock and valid value are set to the block of a polka in the current round. -/
def lockOn (e : Backend) (blockHash : String) : Backend :=
  { e with cs := { e.cs with lockedRound := e.cs.round, lockedHash := blockHash,
                             validRound := e.cs.round, validHash := blockHash } }

/-- The precommit arm of a polka for `blockHash` in the current round: lock if the block has been
seen. -/
def onPolka (e : Backend) (blockHash : String) : Backend :=
  let e := { e with prevoteAt := none }
  let e :=
    if blockHash = "" then sendVote N env e .precommit ""
    else if e.proposal.map ThreadBlock.blockHash = some blockHash then
      sendVote N env (lockOn e blockHash) .precommit blockHash
    else sendVote N env e .precommit ""
  toPrecommit N env e

/-- The votes `handleVote` counts; there are none when the query fails. -/
def countedVotes (e : Backend) (height : Int) (round : Int32) (vtype : VoteType) : List Vote :=
  if env.readFails .getVotes then [] else e.store.getVotes N.thread.id height round vtype

/-- `handleVote` for a stored prevote of the current round. -/
def onPrevote (e : Backend) (vote : Vote) : Backend :=
  if e.cs.step ≠ .prevote then e
  else
    let (blockHash, count) := majority env (countedVotes N env e vote.height vote.round .prevote)
    if (count : Int) < quorum N.thread then e else onPolka N env e blockHash

/-- `handleVote` for a stored precommit of the current round. -/
def onPrecommit (e : Backend) (vote : Vote) : Except Backend Backend :=
  if e.cs.step ≠ .precommit then .ok e
  else
    let (blockHash, count) := majority env (countedVotes N env e vote.height vote.round .precommit)
    if (count : Int) < quorum N.thread ∨ blockHash = "" then .ok e
    else
      let e := { e with precommitAt := none }
      match e.proposal with
      | none => .ok e
      | some block => if block.blockHash ≠ blockHash then .ok e else commitBlock N env e block

/-- `futureVotes[round]`. -/
def futureVotesAt (e : Backend) (round : Int32) : List Vote :=
  e.futureVotes.filter fun v => v.round = round

/-- `bufferFutureVote`. -/
def bufferFutureVote (e : Backend) (vote : Vote) : Backend :=
  if (futureVotesAt e vote.round).any fun v => v.voterDid = vote.voterDid ∧ v.type = vote.type then e
  else { e with futureVotes := e.futureVotes ++ [vote] }

/-- The buffered votes of a round are written to the store and dropped from the buffer. -/
def flushFutureVotes (e : Backend) (round : Int32) : Backend :=
  let e := writeAll N env e ((futureVotesAt e round).map .saveVote)
  { e with futureVotes := e.futureVotes.filter fun v => v.round ≠ round }

/-- A new round: it starts at `propose`, and the state is saved. -/
def enterRound (e : Backend) (round : Int32) : Backend :=
  saveState N env { e with cs := { e.cs with round, step := .propose } }

/-- `checkFutureRoundSkip` from the point where a quorum of prevotes has been counted. -/
def skipToRound (e : Backend) (futureRound : Int32) : Except Backend Backend :=
  let e := { e with proposeAt := none, prevoteAt := none, precommitAt := none }
  proposeAndArm N env (enterRound N env (flushFutureVotes N env e futureRound) futureRound)

/-- `checkFutureRoundSkip`. -/
def checkFutureRoundSkip (e : Backend) (futureRound : Int32) : Except Backend Backend :=
  let seen := (((futureVotesAt e futureRound).filter fun v => v.type = .prevote).map
    Vote.voterDid).dedup
  if (seen.length : Int) < quorum N.thread then .ok e else skipToRound N env e futureRound

/-- `handleVote` once the vote has passed its checks. -/
def acceptVote (e : Backend) (vote : Vote) : Except Backend Backend :=
  if e.cs.round < vote.round then
    checkFutureRoundSkip N env (bufferFutureVote e vote) vote.round
  else if vote.round < e.cs.round then .ok (write N env e (.saveVote vote))
  else if env.fails (.saveVote vote) then .ok e
  else
    let e := write N env e (.saveVote vote)
    match vote.type with
    | .prevote => .ok (onPrevote N env e vote)
    | .precommit => onPrecommit N env e vote
    | _ => .ok e

/-- `handleVote`. -/
def handleVote (e : Backend) (vote : Vote) : Except Backend Backend :=
  if vote.height ≠ e.cs.height then .ok e
  else if isKnownValidator N.thread vote.voterDid = false then .ok e
  else match verifyVoteSig N.crypto vote with
    | none => .error e
    | some (.error _) => .ok e
    | some (.ok ()) => acceptVote N env e vote

/-! ## Timeouts and the step function -/

/-- Whether a deadline is armed and has passed. -/
def elapsed (deadline : Option Int) : Bool := deadline.any fun t => t ≤ env.now

/-- The propose arm of `Tick`: prevote nil. -/
def tickPropose (e : Backend) : Backend :=
  if elapsed env e.proposeAt then
    let e := { e with proposeAt := none }
    if e.cs.step = .propose then toPrevote N env (sendVote N env e .prevote "") else e
  else e

/-- The prevote arm of `Tick`: precommit nil. -/
def tickPrevote (e : Backend) : Backend :=
  if elapsed env e.prevoteAt then
    let e := { e with prevoteAt := none }
    if e.cs.step = .prevote then toPrecommit N env (sendVote N env e .precommit "") else e
  else e

/-- The precommit arm of `Tick`: next round. -/
def tickPrecommit (e : Backend) : Except Backend Backend :=
  if elapsed env e.precommitAt then
    let e := { e with precommitAt := none }
    if e.cs.step = .precommit then proposeAndArm N env (enterRound N env e (e.cs.round + 1))
    else .ok e
  else .ok e

/-- `Tick`. -/
def tick (e : Backend) : Except Backend Backend :=
  if e.started = false then .ok e
  else tickPrecommit N env (tickPrevote N env (tickPropose N env e))

/-- `Pump` up to the point where it drains the inbound channel. -/
def pump (e : Backend) : Except Backend Backend :=
  if e.started then .ok e else proposeAndArm N env { e with started := true }

/-- `StepInbound`. -/
def stepInbound (e : Backend) (msg : ConsensusMsg) : Except Backend Backend :=
  if e.started = false then .ok e
  else match msg.payload with
    | .proposal prop => handleProposal N env e prop
    | .vote vote => handleVote N env e vote
    | .committedBlock _ => .ok e

/-- The calls a replica receives. -/
inductive Event
  | pump
  | inbound (msg : ConsensusMsg)
  | tick
  | enqueue (entry : ThreadEntry)
deriving DecidableEq

/-- One step of a replica. -/
def step (e : Backend) : Event → Except Backend Backend
  | .pump => pump N env e
  | .inbound msg => stepInbound N env e msg
  | .tick => tick N env e
  | .enqueue entry => .ok (write N env e (.enqueueEntry entry env.now))

end MoltMesh.Tendermint

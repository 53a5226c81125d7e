import MoltMesh.Tendermint.Backend
import Mathlib.Logic.Relation

/-!
# What a step of the Tendermint backend can do

The handlers of `Backend.lean` are cut into *acts*: the few things a replica can
do to its consensus state, its store and its trace (`Act`).  `step_acts` says
once and for all that a step, whether it returns or panics, is a sequence of
acts, so that an invariant has to be proved for each act only.

The guards of an act are the facts the handler has checked at that point.  What
is assumed of the steps, rather than checked by them, is a `Proviso`: which
messages a replica in a given state may hear, and in which states it may count
its round up.
-/

namespace MoltMesh.Tendermint

open MoltMesh.Lib Pb

/-! ## What a trace contains -/

/-- The votes a replica has broadcast. -/
def sentVotes (t : List Effect) : List Vote :=
  t.filterMap fun
    | .broadcast ⟨_, .vote v⟩ => some v
    | _ => none

/-- The proposals a replica has broadcast. -/
def sentProposals (t : List Effect) : List Proposal :=
  t.filterMap fun
    | .broadcast ⟨_, .proposal p⟩ => some p
    | _ => none

/-- The calls of `commitBlock`: height and block. -/
def commits (t : List Effect) : List (Int × ThreadBlock) :=
  t.filterMap fun
    | .commit h b => some (h, b)
    | _ => none

section Projections

variable {t δ : List Effect}

@[simp] theorem sentVotes_append : sentVotes (t ++ δ) = sentVotes t ++ sentVotes δ :=
  List.filterMap_append

@[simp] theorem sentProposals_append : sentProposals (t ++ δ) = sentProposals t ++ sentProposals δ :=
  List.filterMap_append

@[simp] theorem commits_append : commits (t ++ δ) = commits t ++ commits δ := List.filterMap_append

@[simp] theorem sentVotes_write (w : Write) : sentVotes [.write w] = [] := rfl

@[simp] theorem sentVotes_vote (i : String) (v : Vote) :
    sentVotes [.broadcast ⟨i, .vote v⟩] = [v] := rfl

@[simp] theorem sentVotes_proposal (i : String) (p : Proposal) :
    sentVotes [.broadcast ⟨i, .proposal p⟩] = [] := rfl

@[simp] theorem sentVotes_commit (h : Int) (b : ThreadBlock) : sentVotes [.commit h b] = [] := rfl

@[simp] theorem sentVotes_unlock (h : Int) (r : Int32) : sentVotes [.unlock h r] = [] := rfl

@[simp] theorem sentProposals_write (w : Write) : sentProposals [.write w] = [] := rfl

@[simp] theorem sentProposals_vote (i : String) (v : Vote) :
    sentProposals [.broadcast ⟨i, .vote v⟩] = [] := rfl

@[simp] theorem sentProposals_proposal (i : String) (p : Proposal) :
    sentProposals [.broadcast ⟨i, .proposal p⟩] = [p] := rfl

@[simp] theorem sentProposals_commit (h : Int) (b : ThreadBlock) :
    sentProposals [.commit h b] = [] := rfl

@[simp] theorem sentProposals_unlock (h : Int) (r : Int32) : sentProposals [.unlock h r] = [] := rfl

@[simp] theorem commits_write (w : Write) : commits [.write w] = [] := rfl

@[simp] theorem commits_broadcast (m : ConsensusMsg) : commits [.broadcast m] = [] := rfl

@[simp] theorem commits_commit (h : Int) (b : ThreadBlock) : commits [.commit h b] = [(h, b)] := rfl

@[simp] theorem commits_unlock (h : Int) (r : Int32) : commits [.unlock h r] = [] := rfl

end Projections

/-! ## Statements -/

variable (N : Node) (env : Env) {u v : Vote} {r : Int32} {prop : Proposal} {block : ThreadBlock}

/-- What stays as it is when statements are executed: everything but the store and the trace, in
which only statements are added. -/
structure Quiet (e e' : Backend) : Prop where
  cs : e'.cs = e.cs
  proposal : e'.proposal = e.proposal
  proposeAt : e'.proposeAt = e.proposeAt
  prevoteAt : e'.prevoteAt = e.prevoteAt
  precommitAt : e'.precommitAt = e.precommitAt
  started : e'.started = e.started
  futureVotes : e'.futureVotes = e.futureVotes
  sentVotes : sentVotes e'.trace = sentVotes e.trace
  sentProposals : sentProposals e'.trace = sentProposals e.trace
  commits : commits e'.trace = commits e.trace

theorem Quiet.refl (e : Backend) : Quiet e e := ⟨rfl, rfl, rfl, rfl, rfl, rfl, rfl, rfl, rfl, rfl⟩

theorem Quiet.trans {e e' e'' : Backend} (h : Quiet e e') (h' : Quiet e' e'') : Quiet e e'' :=
  ⟨h'.cs.trans h.cs, h'.proposal.trans h.proposal, h'.proposeAt.trans h.proposeAt,
    h'.prevoteAt.trans h.prevoteAt, h'.precommitAt.trans h.precommitAt, h'.started.trans h.started,
    h'.futureVotes.trans h.futureVotes, h'.sentVotes.trans h.sentVotes,
    h'.sentProposals.trans h.sentProposals, h'.commits.trans h.commits⟩

theorem quiet_write (e : Backend) (w : Write) : Quiet e (write N env e w) := by
  unfold write
  split
  · exact .refl e
  · refine ⟨rfl, rfl, rfl, rfl, rfl, rfl, rfl, ?_, ?_, ?_⟩ <;> simp

section Write

variable (e : Backend) (w : Write)

@[simp] theorem write_cs : (write N env e w).cs = e.cs := (quiet_write N env e w).cs

@[simp] theorem write_proposal : (write N env e w).proposal = e.proposal :=
  (quiet_write N env e w).proposal

@[simp] theorem write_futureVotes : (write N env e w).futureVotes = e.futureVotes :=
  (quiet_write N env e w).futureVotes

@[simp] theorem write_started : (write N env e w).started = e.started :=
  (quiet_write N env e w).started

@[simp] theorem sentVotes_trace_write : sentVotes (write N env e w).trace = sentVotes e.trace :=
  (quiet_write N env e w).sentVotes

@[simp] theorem sentProposals_trace_write :
    sentProposals (write N env e w).trace = sentProposals e.trace :=
  (quiet_write N env e w).sentProposals

@[simp] theorem commits_trace_write : commits (write N env e w).trace = commits e.trace :=
  (quiet_write N env e w).commits

variable {e w}

/-- Only `SaveVote` changes the votes. -/
theorem votes_write (h : ∀ v, w ≠ .saveVote v) :
    (write N env e w).store.votes = e.store.votes := by
  unfold write
  split
  · rfl
  · cases w with
    | saveVote v => exact absurd rfl (h v)
    | saveBlock b | saveConsensusState cs | deletePending i | enqueueEntry x n => rfl

/-- Only `SaveBlock` changes the blocks. -/
theorem blocks_write (h : ∀ b, w ≠ .saveBlock b) :
    (write N env e w).store.blocks = e.store.blocks := by
  unfold write
  split
  · rfl
  · cases w with
    | saveBlock b => exact absurd rfl (h b)
    | saveVote v | saveConsensusState cs | deletePending i | enqueueEntry x n => rfl

/-- A vote in the store after `SaveVote` was there before or is the one saved. -/
theorem mem_votes_write_saveVote
    (h : u ∈ (write N env e (.saveVote v)).store.votes.rows) : u ∈ e.store.votes.rows ∨ u = v := by
  unfold write at h
  split at h
  · exact .inl h
  · rcases Table.mem_insertOrIgnore.mp h with h | ⟨rfl, -⟩
    · exact .inl h
    · exact .inr rfl

end Write

theorem quiet_writeAll (ws : List Write) (e : Backend) : Quiet e (writeAll N env e ws) := by
  induction ws generalizing e with
  | nil => exact .refl e
  | cons w ws ih => exact (quiet_write N env e w).trans (ih _)

theorem votes_writeAll {ws : List Write} (h : ∀ w ∈ ws, ∀ v, w ≠ .saveVote v) (e : Backend) :
    (writeAll N env e ws).store.votes = e.store.votes := by
  induction ws generalizing e with
  | nil => rfl
  | cons w ws ih =>
    exact (ih (fun w' hw => h w' (List.mem_cons_of_mem _ hw)) _).trans
      (votes_write N env (h w List.mem_cons_self))

theorem blocks_writeAll {ws : List Write} (h : ∀ w ∈ ws, ∀ b, w ≠ .saveBlock b) (e : Backend) :
    (writeAll N env e ws).store.blocks = e.store.blocks := by
  induction ws generalizing e with
  | nil => rfl
  | cons w ws ih =>
    exact (ih (fun w' hw => h w' (List.mem_cons_of_mem _ hw)) _).trans
      (blocks_write N env (h w List.mem_cons_self))

/-! ## Proposing -/

/-- The state a call ends in, by returning or by panicking. -/
def final : Except Backend Backend → Backend
  | .ok e => e
  | .error e => e

/-- The state after `enterPropose`. -/
def proposing (e : Backend) : Backend := final (enterPropose N env e)

/-- What `enterPropose` can do: dequeue entries, and broadcast a proposal for the current height
and round if the replica is their proposer. -/
structure Proposing (e e' : Backend) : Prop where
  cs : e'.cs = e.cs
  proposal : e'.proposal = e.proposal
  futureVotes : e'.futureVotes = e.futureVotes
  started : e'.started = e.started
  votes : e'.store.votes = e.store.votes
  blocks : e'.store.blocks = e.store.blocks
  sentVotes : sentVotes e'.trace = sentVotes e.trace
  commits : commits e'.trace = commits e.trace
  sentProposals : sentProposals e'.trace = sentProposals e.trace ∨
    isProposer N e = some true ∧ ∃ entries,
      sentProposals e'.trace =
        sentProposals e.trace ++ [newProposal N e (newBlock N env e entries)]

theorem newBlock_congr {e e' : Backend} (hcs : e'.cs = e.cs)
    (hblocks : e'.store.blocks = e.store.blocks) (entries : List ThreadEntry) :
    newBlock N env e' entries = newBlock N env e entries := by
  have hp : parentHash N env e' = parentHash N env e := by
    simp only [parentHash, Store.getBlock, hcs, hblocks]
  simp only [newBlock, hcs, hp]

theorem dequeuePendingEntries_spec {e e' : Backend} {limit : Nat} {entries : List ThreadEntry}
    (h : dequeuePendingEntries N env e limit = some (entries, e')) :
    Quiet e e' ∧ e'.store.votes = e.store.votes ∧ e'.store.blocks = e.store.blocks := by
  unfold dequeuePendingEntries at h
  split at h
  · cases h
  · obtain ⟨-, rfl⟩ := Prod.mk.inj (Option.some.inj h)
    refine ⟨quiet_writeAll N env _ e, votes_writeAll N env ?_ e, blocks_writeAll N env ?_ e⟩
    · intro w hw v
      obtain ⟨r, -, rfl⟩ := List.mem_map.mp hw
      exact Write.noConfusion
    · intro w hw b
      obtain ⟨r, -, rfl⟩ := List.mem_map.mp hw
      exact Write.noConfusion

theorem proposing_spec (e : Backend) : Proposing N env e (proposing N env e) := by
  have hrefl : Proposing N env e e := ⟨rfl, rfl, rfl, rfl, rfl, rfl, rfl, rfl, .inl rfl⟩
  unfold proposing enterPropose
  cases hprop : isProposer N e with
  | none => exact hrefl
  | some b =>
    cases b with
    | false => exact hrefl
    | true =>
      unfold buildProposal
      cases hd : dequeuePendingEntries N env e maxPendingPerBlock with
      | none => exact hrefl
      | some x =>
        obtain ⟨entries, e'⟩ := x
        obtain ⟨hq, hvotes, hblocks⟩ := dequeuePendingEntries_spec N env hd
        dsimp only
        split
        · exact ⟨hq.cs, hq.proposal, hq.futureVotes, hq.started, hvotes, hblocks,
            hq.sentVotes, hq.commits, .inl hq.sentProposals⟩
        · refine ⟨hq.cs, hq.proposal, hq.futureVotes, hq.started, hvotes, hblocks, ?_, ?_,
            .inr ⟨hprop, entries, ?_⟩⟩
          · simpa [broadcast, final] using hq.sentVotes
          · simpa [broadcast, final] using hq.commits
          · simp only [broadcast, final, sentProposals_append, sentProposals_proposal,
              hq.sentProposals, newProposal, polRound, hq.cs]
            rw [newBlock_congr N env hq.cs hblocks]

/-! ## The parts of an arm -/

section Parts

variable (e : Backend)

attribute [simp] saveState sendVote broadcast

@[simp] theorem saveState_cs : (saveState N env e).cs = e.cs := write_cs N env e _

@[simp] theorem saveState_futureVotes : (saveState N env e).futureVotes = e.futureVotes :=
  write_futureVotes N env e _

variable (ty : VoteType) (H : String)

@[simp] theorem sendVote_cs : (sendVote N env e ty H).cs = e.cs := write_cs N env e _

theorem mem_votes_sendVote (h : u ∈ (sendVote N env e ty H).store.votes.rows) :
    u ∈ e.store.votes.rows ∨ u = newVote N e ty H := mem_votes_write_saveVote N env h

/-- A vote in the store or in the buffer after a flush was in one of them before. -/
theorem mem_votes_writeAll {vs : List Vote} {e : Backend}
    (h : u ∈ (writeAll N env e (vs.map .saveVote)).store.votes.rows) :
    u ∈ e.store.votes.rows ∨ u ∈ vs := by
  induction vs generalizing e with
  | nil => exact .inl h
  | cons v vs ih =>
    rcases ih h with h | h
    · rcases mem_votes_write_saveVote N env h with h | rfl
      · exact .inl h
      · exact .inr List.mem_cons_self
    · exact .inr (List.mem_cons_of_mem _ h)

theorem mem_votes_flushFutureVotes (h : u ∈ (flushFutureVotes N env e r).store.votes.rows) :
    u ∈ e.store.votes.rows ∨ u ∈ e.futureVotes :=
  (mem_votes_writeAll N env h).imp_right fun h => (List.mem_filter.mp h).1

theorem mem_futureVotes_flushFutureVotes
    (h : u ∈ (flushFutureVotes N env e r).futureVotes) : u ∈ e.futureVotes := by
  have hu := (List.mem_filter.mp h).1
  rwa [(quiet_writeAll N env _ e).futureVotes] at hu

/-- The three ways in which an accepted proposal is answered: a nil prevote of a replica locked on
another block, a prevote that gives up such a lock, and a prevote no lock is in the way of. -/
theorem acceptProposal_cases (prop : Proposal) (block : ThreadBlock) :
    (lockedOnDifferent e.cs block.blockHash = true ∧ polcSupersedes e.cs prop = false ∧
      acceptProposal N env e prop block =
        toPrevote N env (sendVote N env { e with proposal := some block } .prevote "")) ∨
    (lockedOnDifferent e.cs block.blockHash = true ∧ polcSupersedes e.cs prop = true ∧
      acceptProposal N env e prop block = toPrevote N env (sendVote N env
        (unlock { e with proposal := some block }) .prevote block.blockHash)) ∨
    (lockedOnDifferent e.cs block.blockHash = false ∧
      acceptProposal N env e prop block = toPrevote N env (sendVote N env
        { e with proposal := some block } .prevote block.blockHash)) := by
  unfold acceptProposal
  dsimp only
  cases lockedOnDifferent e.cs block.blockHash with
  | false => exact .inr (.inr ⟨rfl, rfl⟩)
  | true =>
    cases polcSupersedes e.cs prop with
    | false => exact .inl ⟨rfl, rfl, rfl⟩
    | true => exact .inr (.inl ⟨rfl, rfl, rfl⟩)

end Parts

/-! ## Acts -/

/-- The checks of `handleVote`. -/
structure VoteOk (e : Backend) (v : Vote) : Prop where
  height : v.height = e.cs.height
  known : isKnownValidator N.thread v.voterDid = true
  sig : verifyVoteSig N.crypto v = some (.ok ())

/-- The checks of `handleProposal`. -/
structure ProposalOk (e : Backend) (prop : Proposal) (block : ThreadBlock) : Prop where
  height : prop.height = e.cs.height
  round : prop.round = e.cs.round
  step : e.cs.step = .propose
  proposer : isValidProposer N.thread prop.proposerDid prop.height prop.round = some true
  carries : prop.block = some block
  sig : verifyProposalSig N.crypto prop block = some (.ok ())

/-- `majority` reports a quorum for `H` among the stored votes of the current height and round. -/
def Winner (e : Backend) (vtype : VoteType) (H : String) : Prop :=
  ∃ c : Nat, majority env (countedVotes N env e e.cs.height e.cs.round vtype) = (H, c) ∧
    quorum N.thread ≤ c

/-- The block with the timestamp of its commit. -/
def stamped (block : ThreadBlock) : ThreadBlock := { block with committedAt := env.now }

/-- The state in which `commitBlock` proposes: the block is stored and the next height begun. -/
def committed (e : Backend) (block : ThreadBlock) : Backend :=
  armPropose N env (enterHeight N env
    (write N env (markCommit e (stamped env block)) (.saveBlock (stamped env block)))
    (block.height + 1))

section Committed

variable (e : Backend) (block : ThreadBlock)

@[simp] theorem committed_cs : (committed N env e block).cs = .start (block.height + 1) := by
  simp [committed, armPropose, enterHeight]

@[simp] theorem committed_proposal : (committed N env e block).proposal = none := by
  simp [committed, armPropose, enterHeight]

@[simp] theorem committed_futureVotes : (committed N env e block).futureVotes = [] := by
  simp [committed, armPropose, enterHeight]

@[simp] theorem committed_votes : (committed N env e block).store.votes = e.store.votes := by
  refine (votes_write N env fun _ => Write.noConfusion).trans ?_
  exact votes_write N env fun _ => Write.noConfusion

@[simp] theorem sentVotes_committed :
    sentVotes (committed N env e block).trace = sentVotes e.trace := by
  simp [committed, armPropose, enterHeight, markCommit]

end Committed

/-- What makes `handleVote` call `commitBlock`. -/
structure CommitOk (e : Backend) (block : ThreadBlock) : Prop where
  step : e.cs.step = .precommit
  proposal : e.proposal = some block
  winner : Winner N env e .precommit block.blockHash
  notNil : block.blockHash ≠ ""

/-- What is assumed of the steps of a replica. -/
structure Proviso where
  /-- The messages a replica may be handed in a state. -/
  heard : Backend → Payload → Prop
  /-- The states in which the precommit timeout may start the next round. -/
  advance : ConsensusState → Prop

/-- What a replica can do under a proviso. -/
inductive Act (P : Proviso) (e : Backend) : Backend → Prop
  | arm (p v c : Option Int) : Act P e { e with proposeAt := p, prevoteAt := v, precommitAt := c }
  | start (h : e.started = false) : Act P e (proposing N env { e with started := true })
  | enqueue (entry : ThreadEntry) : Act P e (write N env e (.enqueueEntry entry env.now))
  | saveVote {v : Vote} (hv : VoteOk N e v) (hh : P.heard e (.vote v)) (hr : ¬e.cs.round < v.round) :
    Act P e (write N env e (.saveVote v))
  | buffer {v : Vote} (hv : VoteOk N e v) (hh : P.heard e (.vote v)) (hr : e.cs.round < v.round) :
    Act P e { e with futureVotes := e.futureVotes ++ [v] }
  | flush {r : Int32} (hr : e.cs.round < r) : Act P e (flushFutureVotes N env e r)
  | accept {prop : Proposal} {block : ThreadBlock} (hp : ProposalOk N e prop block)
    (hh : P.heard e (.proposal prop)) : Act P e (acceptProposal N env e prop block)
  | prevoteNil (h : e.cs.step = .propose) :
    Act P e (toPrevote N env (sendVote N env e .prevote ""))
  | precommitNil (h : e.cs.step = .prevote) :
    Act P e (toPrecommit N env (sendVote N env e .precommit ""))
  | precommit {H : String} (h : e.cs.step = .prevote) (hw : Winner N env e .prevote H)
    (hp : e.proposal.map ThreadBlock.blockHash = some H) (hn : H ≠ "") :
    Act P e (toPrecommit N env (sendVote N env (lockOn e H) .precommit H))
  | nextRound (hst : e.started = true) (h : e.cs.step = .precommit) (ha : P.advance e.cs) :
    Act P e (proposing N env (enterRound N env e (e.cs.round + 1)))
  | skip {r : Int32} (hst : e.started = true) (hr : e.cs.round < r) :
    Act P e (proposing N env (enterRound N env e r))
  | commitFails {block : ThreadBlock} (h : CommitOk N env e block) :
    Act P e (markCommit e (stamped env block))
  | commitPanics {block : ThreadBlock} (h : CommitOk N env e block)
    (hf : env.fails (.saveBlock (stamped env block)) = false)
    (hl : block.blockHash.utf8ByteSize < 8) :
    Act P e (write N env (markCommit e (stamped env block)) (.saveBlock (stamped env block)))
  | commit {block : ThreadBlock} (hst : e.started = true) (h : CommitOk N env e block)
    (hf : env.fails (.saveBlock (stamped env block)) = false)
    (hl : 8 ≤ block.blockHash.utf8ByteSize) :
    Act P e (proposing N env (committed N env e block))

/-- A sequence of acts. -/
abbrev Acts (P : Proviso) : Backend → Backend → Prop := Relation.ReflTransGen (Act N env P)

variable {N env} {P : Proviso} {e : Backend}

/-! ## What an act leaves behind -/

/-- A vote is cast, and nothing else happens to the votes. -/
structure Votes (e e' : Backend) (v : Vote) : Prop where
  sent : sentVotes e'.trace = sentVotes e.trace ++ [v]
  stored : ∀ u ∈ e'.store.votes.rows, u ∈ e.store.votes.rows ∨ u = v
  futureVotes : e'.futureVotes = e.futureVotes

/-- No vote is cast, and those that are stored or buffered were so before or are heard now. -/
structure NoVote (N : Node) (P : Proviso) (e e' : Backend) : Prop where
  sent : sentVotes e'.trace = sentVotes e.trace
  stored : ∀ u, u ∈ e'.store.votes.rows ∨ u ∈ e'.futureVotes →
    (u ∈ e.store.votes.rows ∨ u ∈ e.futureVotes) ∨ (VoteOk N e u ∧ P.heard e (.vote u))

/-- What a vote is cast on. -/
inductive Casts (N : Node) (env : Env) (P : Proviso) (e : Backend) : VoteType → String → Prop
  | proposal {prop : Proposal} {block : ThreadBlock} (ok : ProposalOk N e prop block)
    (heard : P.heard e (.proposal prop)) : Casts N env P e .prevote block.blockHash
  | prevoteNil (step : e.cs.step = .propose) : Casts N env P e .prevote ""
  | precommitNil (step : e.cs.step = .prevote) : Casts N env P e .precommit ""
  | polka {H : String} (step : e.cs.step = .prevote) (winner : Winner N env e .prevote H)
    (notNil : H ≠ "") : Casts N env P e .precommit H

/-- How an act moves the consensus state and the proposal. -/
inductive Moves (N : Node) (env : Env) (P : Proviso) (e e' : Backend) : Prop
  | stay (cs : e'.cs = e.cs) (proposal : e'.proposal = e.proposal)
  | accept {prop : Proposal} {block : ThreadBlock} (ok : ProposalOk N e prop block)
    (heard : P.heard e (.proposal prop)) (cs : e'.cs = { e.cs with step := .prevote })
    (proposal : e'.proposal = some block)
  | unlock {prop : Proposal} {block : ThreadBlock} (ok : ProposalOk N e prop block)
    (heard : P.heard e (.proposal prop))
    (locked : lockedOnDifferent e.cs block.blockHash = true)
    (supersedes : polcSupersedes e.cs prop = true)
    (cs : e'.cs = { e.cs with step := .prevote, lockedRound := -1, lockedHash := "" })
    (proposal : e'.proposal = some block)
  | prevoteNil (step : e.cs.step = .propose) (cs : e'.cs = { e.cs with step := .prevote })
    (proposal : e'.proposal = e.proposal)
  | precommitNil (step : e.cs.step = .prevote) (cs : e'.cs = { e.cs with step := .precommit })
    (proposal : e'.proposal = e.proposal)
  | lock {H : String} (step : e.cs.step = .prevote) (winner : Winner N env e .prevote H)
    (notNil : H ≠ "") (cs : e'.cs = { (lockOn e H).cs with step := .precommit })
    (proposal : e'.proposal = e.proposal)
  | nextRound (step : e.cs.step = .precommit) (advance : P.advance e.cs)
    (cs : e'.cs = { e.cs with round := e.cs.round + 1, step := .propose })
    (proposal : e'.proposal = e.proposal)
  | skip {r : Int32} (later : e.cs.round < r)
    (cs : e'.cs = { e.cs with round := r, step := .propose })
    (proposal : e'.proposal = e.proposal)
  | stamp {block : ThreadBlock} (ok : CommitOk N env e block) (cs : e'.cs = e.cs)
    (proposal : e'.proposal = some (stamped env block))
  | commit {block : ThreadBlock} (ok : CommitOk N env e block)
    (cs : e'.cs = .start (block.height + 1)) (proposal : e'.proposal = none)

/-- A block as its proposer makes it. -/
structure OwnBlock (N : Node) (height : Int) (round : Int32) (b : ThreadBlock) : Prop where
  threadId : b.threadId = N.thread.id
  height : b.height = height
  round : b.round = round
  proposerDid : b.proposerDid = N.id.did
  blockHash : b.blockHash = computeBlockHash b

theorem ownBlock_newBlock (entries : List ThreadEntry) :
    OwnBlock N e.cs.height e.cs.round (newBlock N env e entries) := ⟨rfl, rfl, rfl, rfl, rfl⟩

/-- How an act comes to propose: at the start, in a later round, or at the next height. -/
inductive Enters (P : Proviso) (e e' : Backend) : Prop
  | start (unstarted : e.started = false) (started : e'.started = true) (cs : e'.cs = e.cs)
  | round {r : Int32} (started : e.started = true)
    (later : e.cs.round < r ∨ (r = e.cs.round + 1 ∧ P.advance e.cs))
    (cs : e'.cs = { e.cs with round := r, step := .propose })
  | height {block : ThreadBlock} (started : e.started = true) (proposal : e.proposal = some block)
    (cs : e'.cs = .start (block.height + 1))

/-- A proposal is broadcast. -/
structure Proposes (N : Node) (P : Proviso) (e e' : Backend) (block : ThreadBlock) : Prop where
  enters : Enters P e e'
  proposer : isProposer N e' = some true
  own : OwnBlock N e'.cs.height e'.cs.round block
  sent : sentProposals e'.trace = sentProposals e.trace ++ [newProposal N e' block]

section Inversion

variable {e₁ e' : Backend}

/-- What an act comes to. -/
structure Deed (N : Node) (env : Env) (P : Proviso) (e e' : Backend) : Prop where
  moves : Moves N env P e e'
  /-- At most one vote is cast, at the current height and round. -/
  voting : NoVote N P e e' ∨ ∃ ty H, Casts N env P e ty H ∧ Votes e e' (newVote N e ty H)
  /-- `commitBlock` is called at most once, on a quorum of precommits. -/
  commits_cases : commits e'.trace = commits e.trace ∨
    ∃ block, CommitOk N env e block ∧ commits e'.trace = commits e.trace ++ [(e.cs.height, stamped env block)]
  proposals : sentProposals e'.trace = sentProposals e.trace ∨ ∃ block, Proposes N P e e' block
  started : e.started = true → e'.started = true

/-- What is the same after an act that only touches votes and deadlines, or after one that casts a vote. -/
structure Retained (e e' : Backend) : Prop where
  commits : commits e'.trace = commits e.trace
  sentProposals : sentProposals e'.trace = sentProposals e.trace
  started : e'.started = e.started

theorem Quiet.retained (h : Quiet e e') : Retained e e' := ⟨h.commits, h.sentProposals, h.started⟩

theorem Retained.deed (h : Retained e e') (hmoves : Moves N env P e e')
    (hvoting : NoVote N P e e' ∨ ∃ ty H, Casts N env P e ty H ∧ Votes e e' (newVote N e ty H)) : Deed N env P e e' :=
  ⟨hmoves, hvoting, .inl h.commits, .inl h.sentProposals, fun hst => h.started.trans hst⟩

/-- Votes and buffer are as before, and none is cast. -/
theorem NoVote.of_eq (hs : sentVotes e'.trace = sentVotes e.trace)
    (hv : e'.store.votes = e.store.votes) (hf : e'.futureVotes = e.futureVotes) :
    NoVote N P e e' := ⟨hs, fun u hu => .inl (by rwa [hv, hf] at hu)⟩

/-- A proposer that has been told to begin may broadcast a proposal. -/
theorem deed_of_proposing (hp : Proposing N env e₁ e') (hmoves : Moves N env P e e') (henters : Enters P e e')
    (hvotes : NoVote N P e e₁) (hsent : sentProposals e₁.trace = sentProposals e.trace)
    (hcommits : commits e₁.trace = commits e.trace ∨
      ∃ block, CommitOk N env e block ∧ commits e₁.trace = commits e.trace ++ [(e.cs.height, stamped env block)])
    (hstarted : e.started = true → e₁.started = true) : Deed N env P e e' where
  moves := hmoves
  voting := .inl ⟨hp.sentVotes.trans hvotes.sent, by rw [hp.votes, hp.futureVotes]; exact hvotes.stored⟩
  commits_cases := by rwa [hp.commits]
  proposals := by
    rcases hp.sentProposals with h | ⟨hprop, entries, h⟩
    · exact .inl (h.trans hsent)
    · refine .inr ⟨newBlock N env e₁ entries, henters, ?_, ?_, ?_⟩
      · rw [← hprop]
        simp only [isProposer, hp.cs]
      · rw [hp.cs]
        exact ownBlock_newBlock entries
      · rw [h, hsent]
        simp only [newProposal, polRound, hp.cs]
  started hst := hp.started.trans (hstarted hst)

attribute [local simp] toPrevote toPrecommit

variable (N env) in
theorem votes_sendVote (hs : sentVotes e₁.trace = sentVotes e.trace) (hv : e₁.store.votes = e.store.votes)
    (hf : e₁.futureVotes = e.futureVotes) {ty : VoteType} {H : String} :
    Votes e (toPrevote N env (sendVote N env e₁ ty H)) (newVote N e₁ ty H) ∧
      Votes e (toPrecommit N env (sendVote N env e₁ ty H)) (newVote N e₁ ty H) := by
  have hstored (u : Vote) (hu : u ∈ (sendVote N env e₁ ty H).store.votes.rows) :
      u ∈ e.store.votes.rows ∨ u = newVote N e₁ ty H := hv ▸ mem_votes_sendVote N env e₁ ty H hu
  refine ⟨⟨by simp [hs], fun u hu => hstored u ?_, by simp [hf]⟩, by simp [hs], fun u hu => hstored u ?_, by simp [hf]⟩
  · rwa [toPrevote, saveState, votes_write N env fun _ => Write.noConfusion] at hu
  · rwa [toPrecommit, saveState, votes_write N env fun _ => Write.noConfusion] at hu

theorem votes_acceptProposal (hp : ProposalOk N e prop block) (hh : P.heard e (.proposal prop)) :
    ∃ H, Casts N env P e .prevote H ∧
      Votes e (acceptProposal N env e prop block) (newVote N e .prevote H) := by
  rcases acceptProposal_cases N env e prop block with ⟨-, -, heq⟩ | ⟨-, -, heq⟩ | ⟨-, heq⟩ <;>
    rw [heq]
  · refine ⟨"", .prevoteNil hp.step, (votes_sendVote N env ?_ ?_ ?_).1⟩ <;> rfl
  · refine ⟨_, .proposal hp hh, (votes_sendVote N env ?_ ?_ ?_).1⟩
    · simp [unlock]
    · rfl
    · rfl
  · refine ⟨_, .proposal hp hh, (votes_sendVote N env ?_ ?_ ?_).1⟩ <;> rfl

theorem deed_acceptProposal (hp : ProposalOk N e prop block)
    (hh : P.heard e (.proposal prop)) : Deed N env P e (acceptProposal N env e prop block) := by
  obtain ⟨H, hv⟩ := votes_acceptProposal hp hh
  refine Retained.deed ?_ ?_ (.inr ⟨_, H, hv⟩) <;>
    rcases acceptProposal_cases N env e prop block with ⟨-, -, heq⟩ | ⟨hl, hs, heq⟩ | ⟨-, heq⟩ <;> rw [heq]
  · exact ⟨by simp, by simp, by simp⟩
  · exact ⟨by simp [unlock], by simp [unlock], by simp [unlock]⟩
  · exact ⟨by simp, by simp, by simp⟩
  · exact .accept hp hh (by simp) (by simp)
  · exact .unlock hp hh hl hs (by simp [unlock]) (by simp [unlock])
  · exact .accept hp hh (by simp) (by simp)

/-- The next round, or a later one. -/
theorem deed_enterRound (hst : e.started = true)
    (hr : e.cs.round < r ∨ (r = e.cs.round + 1 ∧ P.advance e.cs ∧ e.cs.step = .precommit)) :
    Deed N env P e (proposing N env (enterRound N env e r)) := by
  have hp := proposing_spec N env (enterRound N env e r)
  have hcs := hp.cs.trans (saveState_cs N env _)
  have hprop := hp.proposal.trans (write_proposal N env _ _)
  refine deed_of_proposing hp ?_ (.round hst (hr.imp_right fun h => ⟨h.1, h.2.1⟩) hcs) (.of_eq ?_ ?_ ?_) ?_ (.inl ?_) fun h => ?_
  · rcases hr with hr | ⟨rfl, ha, hs⟩
    · exact .skip hr hcs hprop
    · exact .nextRound hs ha hcs hprop
  · exact sentVotes_trace_write N env _ _
  · exact votes_write N env fun _ => Write.noConfusion
  · exact write_futureVotes N env _ _
  · exact sentProposals_trace_write N env _ _
  · exact commits_trace_write N env _ _
  · exact (write_started N env _ _).trans h

/-- **What every act comes to.** -/
theorem Act.deed (hact : Act N env P e e') : Deed N env P e e' := by
  have hquiet {w : Write} (hw : NoVote N P e (write N env e w)) : Deed N env P e (write N env e w) :=
    (quiet_write N env e w).retained.deed (.stay (by simp) (by simp)) (.inl hw)
  cases hact with
  | arm p v c => exact Retained.deed ⟨rfl, rfl, rfl⟩ (.stay rfl rfl) (.inl (.of_eq rfl rfl rfl))
  | start hs =>
    have hp := proposing_spec N env { e with started := true }
    exact deed_of_proposing hp (.stay hp.cs hp.proposal) (.start hs hp.started hp.cs) (.of_eq rfl rfl rfl) rfl (.inl rfl) fun _ => rfl
  | enqueue entry => exact hquiet (.of_eq (by simp) (votes_write N env fun _ => Write.noConfusion) (by simp))
  | saveVote hv hh hr =>
    refine hquiet ⟨by simp, fun u hu => ?_⟩
    rw [write_futureVotes] at hu
    rcases hu with hu | hu
    · rcases mem_votes_write_saveVote N env hu with hu | rfl
      · exact .inl (.inl hu)
      · exact .inr ⟨hv, hh⟩
    · exact .inl (.inr hu)
  | buffer hv hh hr =>
    refine Retained.deed ⟨rfl, rfl, rfl⟩ (.stay rfl rfl) (.inl ⟨rfl, fun u hu => ?_⟩)
    rcases hu with hu | hu
    · exact .inl (.inl hu)
    · rcases List.mem_append.mp hu with hu | hu
      · exact .inl (.inr hu)
      · rw [List.mem_singleton.mp hu]
        exact .inr ⟨hv, hh⟩
  | @flush r hr =>
    have hq := quiet_writeAll N env ((futureVotesAt e r).map .saveVote) e
    refine Retained.deed ⟨hq.commits, hq.sentProposals, hq.started⟩ (.stay hq.cs hq.proposal)
      (.inl ⟨hq.sentVotes, fun u hu => .inl ?_⟩)
    rcases hu with hu | hu
    · exact mem_votes_flushFutureVotes N env e hu
    · exact .inr (mem_futureVotes_flushFutureVotes N env e hu)
  | accept hp hh => exact deed_acceptProposal hp hh
  | prevoteNil hs =>
    exact Retained.deed ⟨by simp, by simp, by simp⟩ (.prevoteNil hs (by simp) (by simp))
      (.inr ⟨_, _, .prevoteNil hs, (votes_sendVote N env rfl rfl rfl).1⟩)
  | precommitNil hs =>
    exact Retained.deed ⟨by simp, by simp, by simp⟩ (.precommitNil hs (by simp) (by simp))
      (.inr ⟨_, _, .precommitNil hs, (votes_sendVote N env rfl rfl rfl).2⟩)
  | @precommit H hs hw hp hn =>
    refine Retained.deed ⟨by simp [lockOn], by simp [lockOn], by simp [lockOn]⟩ (.lock hs hw hn (by simp) (by simp [lockOn]))
      (.inr ⟨_, H, .polka hs hw hn, (votes_sendVote N env ?_ ?_ ?_).2⟩) <;> rfl
  | nextRound hst hs ha => exact deed_enterRound hst (.inr ⟨rfl, ha, hs⟩)
  | skip hst hr => exact deed_enterRound hst (.inl hr)
  | commitFails hc =>
    exact ⟨.stamp hc rfl rfl, .inl (.of_eq (by simp [markCommit]) rfl rfl), .inr ⟨_, hc, by simp [markCommit]⟩,
      .inl (by simp [markCommit]), id⟩
  | commitPanics hc hf hl =>
    exact ⟨.stamp hc (by simp [markCommit]) (by simp [markCommit]), .inl (.of_eq (by simp [markCommit])
      (votes_write N env fun _ => Write.noConfusion) (by simp [markCommit])), .inr ⟨_, hc, by simp [markCommit]⟩,
      .inl (by simp [markCommit]), fun hst => by simpa [markCommit] using hst⟩
  | @commit block hst hc hf hl =>
    have hp := proposing_spec N env (committed N env e block)
    have hcs := hp.cs.trans (committed_cs N env e block)
    refine deed_of_proposing hp (.commit hc hcs (hp.proposal.trans (committed_proposal N env e block))) (.height hst hc.proposal hcs)
      ⟨sentVotes_committed N env e block, fun u hu => .inl ?_⟩ (by simp [committed, armPropose, enterHeight, markCommit])
      (.inr ⟨block, hc, by simp [committed, armPropose, enterHeight, markCommit]⟩)
      fun h => by simpa [committed, armPropose, enterHeight, markCommit] using h
    rw [committed_votes, committed_futureVotes] at hu
    exact .inl (hu.resolve_right List.not_mem_nil)

theorem Acts.started (hacts : Acts N env P e e') (hst : e.started = true) : e'.started = true := by
  induction hacts with
  | refl => exact hst
  | tail _ hact ih => exact hact.deed.started ih

end Inversion

/-! ## Steps as acts -/

theorem Acts.arm (p v c : Option Int) :
    Acts N env P e { e with proposeAt := p, prevoteAt := v, precommitAt := c } :=
  .single (.arm p v c)

/-- Arming the propose deadline after `enterPropose` adds an act. -/
theorem final_proposeAndArm {e₀ : Backend} (h : Acts N env P e₀ (proposing N env e)) :
    Acts N env P e₀ (final (proposeAndArm N env e)) := by
  unfold proposeAndArm proposing at *
  cases he : enterPropose N env e with
  | error e' => simpa [he] using h
  | ok e' =>
    rw [he] at h
    exact h.trans (Acts.arm _ _ _)

theorem handleProposal_acts (hh : P.heard e (.proposal prop)) :
    Acts N env P e (final (handleProposal N env e prop)) := by
  unfold handleProposal
  split
  · exact .refl
  rename_i hpos
  obtain ⟨hheight, hround⟩ := not_or.mp hpos
  split
  · exact .refl
  rename_i hstep
  split
  · exact .refl
  · exact .refl
  rename_i hprop
  split
  · exact .refl
  rename_i block hblock
  split
  · exact .refl
  · exact .refl
  rename_i hsig
  exact .single (.accept ⟨not_not.mp hheight, not_not.mp hround, not_not.mp hstep, hprop, hblock,
    hsig⟩ hh)

theorem commitBlock_acts (hst : e.started = true) (h : CommitOk N env e block) :
    Acts N env P e (final (commitBlock N env e block)) := by
  unfold commitBlock
  dsimp only
  split
  · exact .single (.commitFails h)
  rename_i hf
  rw [Bool.not_eq_true] at hf
  split
  · rename_i hl
    exact .single (.commitPanics h hf hl)
  rename_i hl
  exact .single (.commit hst h hf (not_lt.mp hl))

theorem onPolka_acts {H : String} (hs : e.cs.step = .prevote) (hw : Winner N env e .prevote H) :
    Acts N env P e (onPolka N env e H) := by
  refine (Acts.arm e.proposeAt none e.precommitAt).trans (.single ?_)
  unfold onPolka
  dsimp only
  split
  · exact .precommitNil hs
  rename_i hn
  split
  · rename_i hp
    exact .precommit hs hw hp hn
  · exact .precommitNil hs

theorem onPrevote_acts (hh : v.height = e.cs.height) (hr : v.round = e.cs.round) :
    Acts N env P e (onPrevote N env e v) := by
  unfold onPrevote
  split
  · exact .refl
  rename_i hstep
  rw [hh, hr]
  dsimp only
  split
  · exact .refl
  rename_i hq
  exact onPolka_acts (not_not.mp hstep) ⟨_, rfl, not_lt.mp hq⟩

theorem onPrecommit_acts (hst : e.started = true) (hh : v.height = e.cs.height) (hr : v.round = e.cs.round) :
    Acts N env P e (final (onPrecommit N env e v)) := by
  unfold onPrecommit
  split
  · exact .refl
  rename_i hstep
  rw [hh, hr]
  dsimp only
  split
  · exact .refl
  rename_i hq
  obtain ⟨hcount, hnil⟩ := not_or.mp hq
  refine (Acts.arm e.proposeAt e.prevoteAt none).trans ?_
  split
  · exact .refl
  rename_i block hblock
  split
  · exact .refl
  rename_i hhash
  rw [not_not] at hhash
  refine commitBlock_acts hst ⟨not_not.mp hstep, hblock, ?_, hhash ▸ hnil⟩
  exact ⟨_, Prod.ext hhash.symm rfl, not_lt.mp hcount⟩

theorem bufferFutureVote_acts (hv : VoteOk N e v) (hh : P.heard e (.vote v))
    (hr : e.cs.round < v.round) : Acts N env P e (bufferFutureVote e v) := by
  unfold bufferFutureVote
  split
  · exact .refl
  · exact .single (.buffer hv hh hr)

@[simp] theorem bufferFutureVote_cs (v : Vote) : (bufferFutureVote e v).cs = e.cs := by
  unfold bufferFutureVote
  split <;> rfl

@[simp] theorem bufferFutureVote_started (v : Vote) :
    (bufferFutureVote e v).started = e.started := by
  unfold bufferFutureVote
  split <;> rfl

@[simp] theorem flushFutureVotes_cs (r : Int32) : (flushFutureVotes N env e r).cs = e.cs :=
  (quiet_writeAll N env _ e).cs

@[simp] theorem flushFutureVotes_started (r : Int32) :
    (flushFutureVotes N env e r).started = e.started := (quiet_writeAll N env _ e).started

theorem checkFutureRoundSkip_acts (hst : e.started = true) (hr : e.cs.round < r) :
    Acts N env P e (final (checkFutureRoundSkip N env e r)) := by
  unfold checkFutureRoundSkip
  dsimp only
  split
  · exact .refl
  · unfold skipToRound
    refine (Acts.arm none none none).trans (final_proposeAndArm ?_)
    refine .head (.flush hr) (.single (.skip ?_ ?_))
    · rwa [flushFutureVotes_started]
    · rwa [flushFutureVotes_cs]

/-- What follows when a vote that is not for a later round has been stored. -/
theorem acceptVote_saved_acts (hst : e.started = true) (hv : VoteOk N e v)
    (hr : ¬e.cs.round < v.round) (hsaved : env.fails (.saveVote v) = false) :
    Acts N env P (write N env e (.saveVote v)) (final (acceptVote N env e v)) := by
  unfold acceptVote
  rw [if_neg hr, hsaved, if_neg Bool.false_ne_true]
  split
  · exact .refl
  rename_i hr'
  have hround : v.round = e.cs.round :=
    Int32.le_antisymm (Int32.not_lt.mp hr) (Int32.not_lt.mp hr')
  have hheight' : v.height = (write N env e (.saveVote v)).cs.height := by
    rw [write_cs]
    exact hv.height
  have hround' : v.round = (write N env e (.saveVote v)).cs.round := by
    rw [write_cs]
    exact hround
  dsimp only
  split
  · exact onPrevote_acts hheight' hround'
  · exact onPrecommit_acts ((write_started N env e _).trans hst) hheight' hround'
  · exact .refl

theorem acceptVote_acts (hst : e.started = true) (hv : VoteOk N e v) (hh : P.heard e (.vote v)) :
    Acts N env P e (final (acceptVote N env e v)) := by
  by_cases hr : e.cs.round < v.round
  · unfold acceptVote
    rw [if_pos hr]
    refine (bufferFutureVote_acts hv hh hr).trans (checkFutureRoundSkip_acts ?_ ?_)
    · rwa [bufferFutureVote_started]
    · rwa [bufferFutureVote_cs]
  · have hsave : Acts N env P e (write N env e (.saveVote v)) := .single (.saveVote hv hh hr)
    cases hsaved : env.fails (.saveVote v) with
    | false => exact hsave.trans (acceptVote_saved_acts hst hv hr hsaved)
    | true =>
      unfold acceptVote
      rw [if_neg hr, hsaved, if_pos rfl]
      split
      · exact hsave
      · exact .refl

theorem handleVote_acts (hst : e.started = true) (hh : P.heard e (.vote v)) :
    Acts N env P e (final (handleVote N env e v)) := by
  unfold handleVote
  split
  · exact .refl
  rename_i hheight
  split
  · exact .refl
  rename_i hknown
  split
  · exact .refl
  · exact .refl
  rename_i hsig
  exact acceptVote_acts hst ⟨not_not.mp hheight, by simpa using hknown, hsig⟩ hh

theorem tickPropose_acts : Acts N env P e (tickPropose N env e) := by
  unfold tickPropose
  split
  · refine (Acts.arm none e.prevoteAt e.precommitAt).trans ?_
    dsimp only
    split
    · rename_i hs
      exact .head (.prevoteNil hs) .refl
    · exact .refl
  · exact .refl

theorem tickPrevote_acts : Acts N env P e (tickPrevote N env e) := by
  unfold tickPrevote
  split
  · refine (Acts.arm e.proposeAt none e.precommitAt).trans ?_
    dsimp only
    split
    · rename_i hs
      exact .head (.precommitNil hs) .refl
    · exact .refl
  · exact .refl

@[simp] theorem tickPropose_started : (tickPropose N env e).started = e.started := by
  unfold tickPropose
  split
  · dsimp only
    split
    · simp [toPrevote]
    · rfl
  · rfl

@[simp] theorem tickPrevote_started : (tickPrevote N env e).started = e.started := by
  unfold tickPrevote
  split
  · dsimp only
    split
    · simp [toPrecommit]
    · rfl
  · rfl

theorem tickPrecommit_acts (hst : e.started = true)
    (ha : elapsed env e.precommitAt = true → e.cs.step = .precommit → P.advance e.cs) :
    Acts N env P e (final (tickPrecommit N env e)) := by
  unfold tickPrecommit
  split
  · rename_i hel
    refine (Acts.arm e.proposeAt e.prevoteAt none).trans ?_
    dsimp only
    split
    · rename_i hs
      exact final_proposeAndArm (.single (.nextRound hst hs (ha hel hs)))
    · exact .refl
  · exact .refl

/-- A deadline that has just been armed has not passed. -/
theorem elapsed_arm : elapsed env (some (env.now + defaultTimeoutMs)) = false := by
  simp [elapsed, defaultTimeoutMs]

theorem tickPropose_cases : ((tickPropose N env e).cs = e.cs ∧
      (tickPropose N env e).precommitAt = e.precommitAt) ∨
    ((tickPropose N env e).cs.step = .prevote ∧
      (tickPropose N env e).prevoteAt = some (env.now + defaultTimeoutMs)) := by
  unfold tickPropose
  split
  · dsimp only
    split
    · refine .inr ⟨?_, rfl⟩
      simp [toPrevote, saveState]
    · exact .inl ⟨rfl, rfl⟩
  · exact .inl ⟨rfl, rfl⟩

theorem tickPrevote_cases : ((tickPrevote N env e).cs = e.cs ∧
      (tickPrevote N env e).precommitAt = e.precommitAt) ∨
    (tickPrevote N env e).precommitAt = some (env.now + defaultTimeoutMs) := by
  unfold tickPrevote
  split
  · dsimp only
    split
    · exact .inr rfl
    · exact .inl ⟨rfl, rfl⟩
  · exact .inl ⟨rfl, rfl⟩

/-- The precommit arm of a `Tick` finds the consensus state the `Tick` started with. -/
theorem tick_precommit_arm
    (hel : elapsed env (tickPrevote N env (tickPropose N env e)).precommitAt = true)
    (hs : (tickPrevote N env (tickPropose N env e)).cs.step = .precommit) :
    elapsed env e.precommitAt = true ∧ (tickPrevote N env (tickPropose N env e)).cs = e.cs := by
  rcases @tickPropose_cases N env e with ⟨hcs, hat⟩ | ⟨hstep, hat⟩
  · rcases @tickPrevote_cases N env (tickPropose N env e) with ⟨hcs', hat'⟩ | hat'
    · exact ⟨by rwa [hat', hat] at hel, hcs'.trans hcs⟩
    · rw [hat', elapsed_arm] at hel
      cases hel
  · have hsame : tickPrevote N env (tickPropose N env e) = tickPropose N env e := by
      rw [tickPrevote, hat, elapsed_arm]
      rfl
    rw [hsame, hstep] at hs
    cases hs

/-- A precommit timeout does not count the round up past the largest `int32`. -/
def InRange (e : Backend) (env : Env) (ev : Event) : Prop := ev = .tick →
  elapsed env e.precommitAt = true → e.cs.step = .precommit → e.cs.round ≠ Int32.maxValue

/-- **A step is a sequence of acts**, and so is the part of a step before a panic. -/
theorem step_acts (ev : Event) (hh : ∀ msg, ev = .inbound msg → P.heard e msg.payload)
    (ha : ev = .tick → elapsed env e.precommitAt = true → e.cs.step = .precommit →
      P.advance e.cs) :
    Acts N env P e (final (step N env e ev)) := by
  cases ev with
  | pump =>
    simp only [step, pump]
    split
    · exact .refl
    · rename_i hs
      exact final_proposeAndArm (.single (.start (by simpa using hs)))
  | inbound msg =>
    have hmsg := hh msg rfl
    simp only [step, stepInbound]
    split
    · exact .refl
    rename_i hst
    split
    · rename_i prop hp
      exact handleProposal_acts (hp ▸ hmsg)
    · rename_i vote hv
      exact handleVote_acts (Bool.eq_true_of_not_eq_false hst) (hv ▸ hmsg)
    · exact .refl
  | tick =>
    simp only [step, tick]
    split
    · exact .refl
    rename_i hst
    refine (tickPropose_acts.trans tickPrevote_acts).trans (tickPrecommit_acts ?_ fun hel hs => ?_)
    · rw [tickPrevote_started, tickPropose_started]
      exact Bool.eq_true_of_not_eq_false hst
    · obtain ⟨hel', hcs⟩ := tick_precommit_arm hel hs
      rw [hcs] at hs ⊢
      exact ha rfl hel' hs
  | enqueue entry => exact .single (.enqueue entry)

end MoltMesh.Tendermint

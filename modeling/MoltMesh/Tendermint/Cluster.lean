import MoltMesh.Lib.Quorum
import MoltMesh.Tendermint.Acts

/-!
# A group of Tendermint replicas

The replicas of one thread that run the code, with the network between them and
the Byzantine replicas left to the environment: any replica may be handed any
message at any time, in any order, any number of times or never, as long as no
signature of a correct replica is forged.

A `Group` carries the shape of the validator set, `3f + 1` distinct DIDs of
which at most `f` are Byzantine; its `committee` is what the quorum library needs
of it.
-/

namespace MoltMesh

open Pb

/-- A store that knows nothing of thread `threadID` yet. -/
structure Store.Fresh (s : Store) (threadID : String) : Prop where
  votes : ∀ v ∈ s.votes.rows, v.threadId ≠ threadID
  blocks : ∀ b ∈ s.blocks.rows, b.threadId ≠ threadID
  consensusState : s.consensusState.lookup threadID = none

theorem Store.fresh_empty (threadID : String) : Store.empty.Fresh threadID :=
  ⟨fun _ h => absurd h List.not_mem_nil, fun _ h => absurd h List.not_mem_nil, rfl⟩

end MoltMesh

namespace MoltMesh.Tendermint

open MoltMesh.Lib Pb

variable {t : List Effect}

/-- A thread with its validators: `3f + 1` distinct DIDs, at most `f` of them Byzantine. -/
structure Group where
  thread : Thread
  crypto : Ed25519
  /-- The private key of each replica. -/
  key : String → List UInt8
  f : Nat
  byzantine : Finset String
  f_eq : thread.f.toInt = f
  length_eq : thread.replicaDids.length = 3 * f + 1
  nodup : thread.replicaDids.Nodup
  byzantine_card : byzantine.card ≤ f

/-- The states of the replicas, by DID.  Only those of correct replicas mean anything. -/
abbrev Cluster := String → Backend

/-- A call of one replica. -/
structure Action where
  did : String
  env : Env
  event : Event

namespace Group

variable (G : Group)

/-- The replica with a given DID. -/
def node (did : String) : Node := ⟨G.thread, ⟨did, G.key did⟩, G.crypto⟩

/-- A validator that runs the code. -/
def Correct (did : String) : Prop := did ∈ G.thread.replicaDids ∧ did ∉ G.byzantine

instance (did : String) : Decidable (G.Correct did) := inferInstanceAs (Decidable (_ ∧ _))

/-- The validators and their quorum. -/
def committee : Committee String where
  members := G.thread.replicaDids.toFinset
  faulty := G.byzantine
  quorum := 2 * G.f + 1
  intersect := by
    have hcard : G.thread.replicaDids.toFinset.card = 3 * G.f + 1 := by
      rw [List.toFinset_card_of_nodup G.nodup, G.length_eq]
    have := G.byzantine_card
    omega

theorem quorum_eq : quorum G.thread = (G.committee.quorum : Nat) := by
  simp [quorum, committee, G.f_eq]

/-- The start: every replica is built on a store that knows nothing of the thread. -/
def Initial (S : Cluster) : Prop :=
  ∀ did, ∃ s : Store, s.Fresh G.thread.id ∧ S did = newTendermintBackend (G.node did) s

/-- The state of the replica an action calls, after the call.  A call that panics ends with the
state at the panic; that such a replica is not called again is for the runs to say, and nothing
below depends on it. -/
def after (S : Cluster) (a : Action) : Backend :=
  final (step (G.node a.did) a.env (S a.did) a.event)

/-- One replica that runs the code takes a step that `allowed` admits. -/
def Step (allowed : Cluster → Action → Prop) (S S' : Cluster) : Prop :=
  ∃ a, G.Correct a.did ∧ allowed S a ∧ S' = Function.update S a.did (G.after S a)

/-- A run: steps of replicas, one at a time. -/
abbrev Run (allowed : Cluster → Action → Prop) : Cluster → Cluster → Prop :=
  Relation.ReflTransGen (G.Step allowed)

variable {G} in
theorem run_mono {p q : Cluster → Action → Prop} (h : ∀ S a, p S a → q S a) {S S' : Cluster}
    (hrun : G.Run p S S') : G.Run q S S' :=
  Relation.ReflTransGen.mono (fun S _ ⟨a, hc, hp, heq⟩ => ⟨a, hc, h S a hp, heq⟩) _ _ hrun

variable {G} in
/-- What the group knows about each replica carries over when one of them acts. -/
theorem forall_update {S : Cluster} {Q : String → Backend → Prop} {p : String} {e' : Backend}
    (hold : ∀ did, G.Correct did → Q did (S did)) (hnew : Q p e') :
    ∀ did, G.Correct did → Q did (Function.update S p e' did) := by
  intro did hd
  by_cases heq : did = p
  · subst heq
    rwa [Function.update_self]
  · rw [Function.update_of_ne heq]
    exact hold did hd

end Group

/-! ## Signatures -/

/-- The text a vote is signed for. -/
def voteData (v : Vote) : List UInt8 := voteSigData v.threadId v.height v.round v.type v.blockHash

/-- The text a proposal of `block` is signed for. -/
def proposalData (p : Proposal) (block : ThreadBlock) : List UInt8 :=
  proposalSigData p.threadId p.height p.round block.blockHash

/-- What a replica has signed. -/
def signed (t : List Effect) : List (List UInt8) :=
  (sentVotes t).map voteData ++
    (sentProposals t).filterMap fun p => p.block.map (proposalData p)

/-- A message of this thread whose signature is that of a correct replica was signed by it. -/
def Group.Unforged (G : Group) (S : Cluster) (p : Payload) : Prop :=
  match p with
  | .vote v => G.Correct v.voterDid → v.threadId = G.thread.id →
    verifyVoteSig G.crypto v = some (.ok ()) → voteData v ∈ signed (S v.voterDid).trace
  | .proposal p => ∀ block, p.block = some block → G.Correct p.proposerDid →
    p.threadId = G.thread.id → verifyProposalSig G.crypto p block = some (.ok ()) →
    proposalData p block ∈ signed (S p.proposerDid).trace
  | .committedBlock _ => True

/-- The messages a replica has broadcast. -/
def broadcasts (t : List Effect) : List ConsensusMsg :=
  t.filterMap fun
    | .broadcast m => some m
    | _ => none

/-- Whose signature a message carries. -/
def signer : Payload → Option String
  | .proposal p => some p.proposerDid
  | .vote v => some v.voterDid
  | .committedBlock _ => none

theorem mem_of_mem_broadcasts {m : ConsensusMsg} (h : m ∈ broadcasts t) : .broadcast m ∈ t := by
  obtain ⟨eff, heff, hm⟩ := List.mem_filterMap.mp h
  split at hm
  · rwa [← Option.some.inj hm]
  · cases hm

theorem mem_sentVotes_of_broadcasts {i : String} {v : Vote}
    (h : ⟨i, .vote v⟩ ∈ broadcasts t) : v ∈ sentVotes t :=
  List.mem_filterMap.mpr ⟨_, mem_of_mem_broadcasts h, rfl⟩

theorem mem_sentProposals_of_broadcasts {i : String} {p : Proposal}
    (h : ⟨i, .proposal p⟩ ∈ broadcasts t) : p ∈ sentProposals t :=
  List.mem_filterMap.mpr ⟨_, mem_of_mem_broadcasts h, rfl⟩

/-- What a correct replica has broadcast under its own name is not forged. -/
theorem Group.unforged_of_broadcast {G : Group} {S : Cluster} {did : String} {msg : ConsensusMsg}
    (hmsg : msg ∈ broadcasts (S did).trace) (hs : signer msg.payload = some did) :
    G.Unforged S msg.payload := by
  obtain ⟨t, payload⟩ := msg
  cases payload with
  | vote v =>
    obtain rfl := Option.some.inj hs
    intro _ _ _
    exact List.mem_append_left _ (List.mem_map_of_mem (mem_sentVotes_of_broadcasts hmsg))
  | proposal p =>
    obtain rfl := Option.some.inj hs
    intro block hb _ _ _
    refine List.mem_append_right _ (List.mem_filterMap.mpr ⟨p, ?_, by rw [hb]; rfl⟩)
    exact mem_sentProposals_of_broadcasts hmsg
  | committedBlock b => trivial

/-- A quorum of validators, the correct ones among which have all broadcast a vote of type `ty` for
`H` at a height and round.  Byzantine validators may be counted for any vote. -/
def Group.Voted (G : Group) (S : Cluster) (ty : VoteType) (height : Int) (round : Int32)
    (H : String) : Prop :=
  G.committee.Attests fun did => ∃ v ∈ sentVotes (S did).trace,
    v.height = height ∧ v.round = round ∧ v.type = ty ∧ v.blockHash = H

end MoltMesh.Tendermint

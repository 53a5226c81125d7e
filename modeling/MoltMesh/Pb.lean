import Mathlib.Data.List.Basic
import Mathlib.Tactic.Common

/-!
# The wire messages of thread consensus

The protobuf messages of `proto/a2a.proto` that thread consensus reads and
writes.  Go strings are texts, `bytes` fields are byte lists (an absent field
and an empty one are the same on the wire), and `int32` fields are `Int32`
because a round can be incremented past its largest value.  Heights are
`int64` in the source and unbounded integers here: they are only ever compared
and counted up by one.
-/

namespace MoltMesh.Pb

/-- `pb.VoteType`.  Enumerations are open on the wire: a peer may send any `int32`. -/
inductive VoteType
  | unspecified
  | prevote
  | precommit
  | unrecognized (n : Int32) (h : n.toInt < 0 ∨ 2 < n.toInt)
deriving DecidableEq

/-- The `int32` behind a vote type. -/
def VoteType.number : VoteType → Int
  | unspecified => 0
  | prevote => 1
  | precommit => 2
  | unrecognized n _ => n.toInt

theorem VoteType.number_injective : Function.Injective VoteType.number := by
  intro s t h
  cases s with
  | unrecognized m hm =>
    cases t with
    | unrecognized n hn => simpa [number, Int32.toInt_inj] using h
    | unspecified | prevote | precommit =>
      simp only [number] at h
      omega
  | unspecified | prevote | precommit =>
    cases t with
    | unrecognized n hn =>
      simp only [number] at h
      omega
    | unspecified | prevote | precommit => first | rfl | exact absurd h (by decide)

/-- `pb.Thread`, the descriptor of a thread. -/
structure Thread where
  id : String
  creatorDid : String
  /-- The ordered validator set. -/
  replicaDids : List String
  n : Int32
  /-- The number of faults tolerated. -/
  f : Int32
  /-- The propose timeout in milliseconds; `0` selects the default. -/
  epochMs : Int
  createdAt : Int
  metadata : List (String × String)
deriving DecidableEq

/-- `pb.ThreadEntry`; the fields from `encodingVersion` on are those of encrypted entries. -/
structure ThreadEntry where
  authorDid : String
  payload : List UInt8
  kind : String
  authorSig : String
  submittedAt : Int
  encodingVersion : Nat := 0
  sequence : Nat := 0
  previousBlockHash : List UInt8 := []
  membershipEpoch : Nat := 0
  encryptionEpoch : Nat := 0
  nonce : List UInt8 := []
  authorSignature : List UInt8 := []
deriving DecidableEq

/-- `pb.ThreadBlock`. -/
structure ThreadBlock where
  threadId : String
  height : Int
  round : Int32
  /-- The hash of the block one height below, empty for the first block. -/
  parentHash : String
  entries : List ThreadEntry
  proposerDid : String
  proposerSig : String
  blockHash : String
  /-- Milliseconds since 1970, set when the block is committed. -/
  committedAt : Int
deriving DecidableEq

/-- `pb.Vote`; an empty `blockHash` is a vote for nil. -/
structure Vote where
  threadId : String
  height : Int
  round : Int32
  type : VoteType
  blockHash : String
  voterDid : String
  signature : String
deriving DecidableEq

/-- `pb.Proposal`.  `polRound` is the proof-of-lock round, `-1` if there is none. -/
structure Proposal where
  threadId : String
  height : Int
  round : Int32
  polRound : Int32
  block : Option ThreadBlock
  proposerDid : String
  signature : String
deriving DecidableEq

/-- The payloads of `pb.ConsensusMsg` that a backend acts on. -/
inductive Payload
  | proposal (p : Proposal)
  | vote (v : Vote)
  | committedBlock (b : ThreadBlock)
deriving DecidableEq

/-- `pb.ConsensusMsg`. -/
structure ConsensusMsg where
  threadId : String
  payload : Payload
deriving DecidableEq

end MoltMesh.Pb

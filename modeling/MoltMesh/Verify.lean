import MoltMesh.BlockHash
import MoltMesh.Lib.Linked

/-!
# Verifying a chain

`daemon/thread/verify.go`: the check a reader makes of a list of blocks without
trusting where it comes from.  `verifyChain_eq_ok` says what it accepts, in terms
of linked chains.
-/

namespace MoltMesh

open MoltMesh.Lib Pb

/-- `BackendKind`; any text may stand in the metadata of a thread. -/
inductive BackendKind
  | tendermint
  | raft
  | other (name : String)
deriving DecidableEq

/-- The backend a text names. -/
def BackendKind.ofText (s : String) : BackendKind :=
  if s = "tendermint" then .tendermint else if s = "raft" then .raft else .other s

/-- `blockHashFn`. -/
def blockHashFn (kind : BackendKind) : ThreadBlock → String :=
  if kind = .tendermint then computeBlockHash else raftBlockHash

/-- The errors of `VerifyChain`, with the values their texts report. -/
inductive VerifyError
  | noBlocks
  /-- The block at position `i` has height `height`, expected `want`. -/
  | height (i : Nat) (height want : Int)
  | parentHash (height : Int) (parentHash want : String)
  | blockHash (height : Int) (blockHash recomputed : String)
deriving DecidableEq

/-- The loop of `VerifyChain`: `i` blocks have been checked, the last of which has the hash
`parentHash`. -/
def verifyFrom (hashFn : ThreadBlock → String) :
    Nat → String → List ThreadBlock → Except VerifyError Unit
  | _, _, [] => .ok ()
  | i, parentHash, b :: l =>
    if b.height ≠ i + 1 then .error (.height i b.height (i + 1))
    else if b.parentHash ≠ parentHash then .error (.parentHash b.height b.parentHash parentHash)
    else if hashFn b ≠ b.blockHash then .error (.blockHash b.height b.blockHash (hashFn b))
    else verifyFrom hashFn (i + 1) b.blockHash l

/-- `VerifyChain`. -/
def verifyChain (kind : BackendKind) (blocks : List ThreadBlock) : Except VerifyError Unit :=
  if blocks = [] then .error .noBlocks else verifyFrom (blockHashFn kind) 0 "" blocks

/-- How the blocks of a thread are linked. -/
def blockLinks : Links ThreadBlock String where
  height := ThreadBlock.height
  parent := ThreadBlock.parentHash
  name := ThreadBlock.blockHash

theorem verifyFrom_eq_ok {hashFn : ThreadBlock → String} {i : Nat} {p : String}
    {l : List ThreadBlock} : verifyFrom hashFn i p l = .ok () ↔
      blockLinks.Linked (i + 1) p l ∧ ∀ b ∈ l, hashFn b = b.blockHash := by
  induction l generalizing i p with
  | nil => simp [verifyFrom]
  | cons b l ih =>
    simp only [verifyFrom, Links.Linked, List.forall_mem_cons]
    split
    case isTrue hh => exact ⟨fun h => (by cases h), fun h => absurd h.1.1 hh⟩
    case isFalse hh =>
      split
      case isTrue hp => exact ⟨fun h => (by cases h), fun h => absurd h.1.2.1 hp⟩
      case isFalse hp =>
        split
        case isTrue hb => exact ⟨fun h => (by cases h), fun h => absurd h.2.1 hb⟩
        case isFalse hb =>
          rw [ih]
          constructor
          · rintro ⟨hl, hall⟩
            exact ⟨⟨not_not.mp hh, not_not.mp hp, hl⟩, not_not.mp hb, hall⟩
          · rintro ⟨⟨-, -, hl⟩, -, hall⟩
            exact ⟨hl, hall⟩

/-- **What `VerifyChain` accepts**: a non-empty chain from height 1 on in which every block has its
own hash. -/
theorem verifyChain_eq_ok {kind : BackendKind} {blocks : List ThreadBlock} :
    verifyChain kind blocks = .ok () ↔ blocks ≠ [] ∧ blockLinks.Linked 1 "" blocks ∧
      ∀ b ∈ blocks, blockHashFn kind b = b.blockHash := by
  unfold verifyChain
  split
  case isTrue h => exact ⟨fun hok => (by cases hok), fun hok => absurd h hok.1⟩
  case isFalse h =>
    rw [verifyFrom_eq_ok]
    exact ⟨fun hok => ⟨h, by simpa using hok⟩, fun hok => by simpa using hok.2⟩

end MoltMesh

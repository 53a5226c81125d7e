import MoltMesh.Creation
import MoltMesh.Raft.Backend

/-!
# Which backend a thread has

The metadata of a thread name its backend by any text.  The size of the validator set, the
engine of `manager.go`, the actor of `actor.go` and the verifier of `verify.go` each read
that text by a switch of their own, and only for the texts of `oneBackend_iff` do they all
come to the same backend.
-/

namespace MoltMesh

open MoltMesh.Lib Pb

/-- A consensus backend. -/
inductive Consensus
  | raft
  | tendermint
deriving DecidableEq

namespace Consensus

/-- The switch of `newThreadFromRequest`. -/
def ofSizing (kind : BackendKind) : Consensus := if kind = .tendermint then tendermint else raft

/-- The size of the validator set for a backend. -/
def size (f : Int32) : Consensus → Int32
  | tendermint => 3 * f + 1
  | raft => 2 * f + 1

theorem validatorCount_eq (kind : BackendKind) (f : Int32) :
    validatorCount kind f = if f = 0 then 1 else (ofSizing kind).size f := by
  unfold validatorCount ofSizing
  split_ifs <;> rfl

/-- The kind `Manager.Start` passes on. -/
def startKind (text : String) : BackendKind := if text = "" then .raft else .ofText text

/-- The switch of `NewEngine`. -/
def ofEngine (kind : BackendKind) : Consensus := if kind = .raft then raft else tendermint

/-- The switch of `ThreadActor.PreStart`. -/
def ofActor (kind : BackendKind) : Consensus := if kind = .tendermint then tendermint else raft

/-- The hash a backend gives its blocks. -/
def blockHash : Consensus → ThreadBlock → String
  | tendermint => computeBlockHash
  | raft => raftBlockHash

/-- A block as replicas of the backend make and commit it. -/
def Commits : Consensus → ThreadBlock → Prop
  | raft, b => ∃ threadID term entries proposerDID now height parentHash,
    b = Raft.fillBlock threadID term entries proposerDID now height parentHash
  | tendermint, b => ∃ N env e entries now, b = { Tendermint.newBlock N env e entries with committedAt := now }

theorem Commits.blockHash_eq {c : Consensus} {b : ThreadBlock} (h : c.Commits b) : c.blockHash b = b.blockHash := by
  cases c with
  | raft =>
    obtain ⟨threadID, term, entries, proposerDID, now, height, parentHash, rfl⟩ := h
    rfl
  | tendermint =>
    obtain ⟨N, env, e, entries, now, rfl⟩ := h
    rfl

end Consensus

/-- All that reads the backend of a thread comes to the same one, and its chains are verified. -/
structure OneBackend (th : Thread) (c : Consensus) : Prop where
  sizing : .ofSizing (.ofText (backendText th.metadata)) = c
  engine : .ofEngine (Consensus.startKind (backendText th.metadata)) = c
  actor : .ofActor (.ofText (backendText th.metadata)) = c
  hash : blockHashFn (.ofText (backendText th.metadata)) = c.blockHash
  verified : ∀ bs, bs ≠ [] → blockLinks.Linked 1 "" bs → (∀ b ∈ bs, c.Commits b) →
    verifyChain (.ofText (backendText th.metadata)) bs = .ok ()

/-- Chains are verified with the hash they are made with. -/
theorem verifyChain_of_commits {kind : BackendKind} {c : Consensus} (hash : blockHashFn kind = c.blockHash)
    {bs : List ThreadBlock} (hne : bs ≠ []) (hlinked : blockLinks.Linked 1 "" bs) (h : ∀ b ∈ bs, c.Commits b) :
    verifyChain kind bs = .ok () := by
  refine verifyChain_eq_ok.mpr ⟨hne, hlinked, fun b hb => ?_⟩
  rw [hash]
  exact (h b hb).blockHash_eq

/-- **When a thread has one backend**: it is named by one of three texts. -/
theorem oneBackend_iff (th : Thread) :
    (∃ c, OneBackend th c) ↔ backendText th.metadata ∈ ["", "raft", "tendermint"] := by
  simp only [List.mem_cons, List.not_mem_nil, or_false]
  constructor
  · rintro ⟨c, h⟩
    by_contra hother
    obtain ⟨hempty, hraft, htendermint⟩ := not_or.mp hother |>.imp_right not_or.mp
    have hkind : BackendKind.ofText (backendText th.metadata) = .other (backendText th.metadata) := by
      rw [BackendKind.ofText, if_neg htendermint, if_neg hraft]
    have hswitch := h.engine.trans h.actor.symm
    rw [Consensus.startKind, if_neg hempty, hkind] at hswitch
    cases hswitch
  · rintro (h | h | h)
    · refine ⟨.raft, ?_, ?_, ?_, ?_, fun bs => verifyChain_of_commits ?_⟩ <;> rw [h] <;> rfl
    · refine ⟨.raft, ?_, ?_, ?_, ?_, fun bs => verifyChain_of_commits ?_⟩ <;> rw [h] <;> rfl
    · refine ⟨.tendermint, ?_, ?_, ?_, ?_, fun bs => verifyChain_of_commits ?_⟩ <;> rw [h] <;> rfl

/-- A thread of three replicas is sized for Raft and run as Tendermint by the engine. -/
theorem backends_differ : ∃ th, newThreadFromRequest "t" 1 "d1" (some ⟨["d1", "d2", "d3"], 1, 0, [("backend", "pbft")]⟩) "" 0 =
    .ok th ∧ ¬∃ c, OneBackend th c := by
  refine ⟨_, rfl, ?_⟩
  rintro ⟨c, h⟩
  cases h.engine.trans h.sizing.symm

end MoltMesh

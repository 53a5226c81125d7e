import MoltMesh.Pb

/-!
# The records of etcd/raft

The parts of `raftpb` the Raft backend stores and reads.  Indices and terms are
natural numbers.  The data of an entry is represented by what the backend gets
when it decodes it, so that a log can be compared entry by entry without a JSON
parser in between.
-/

namespace MoltMesh.Raftpb

open Pb

/-- `raftProposal`, the envelope the backend proposes: the entries, the ids of the pending rows they
were read from, and the replica whose rows these are. -/
structure RaftProposal where
  pendingIDs : List Int
  entries : List ThreadEntry
  ownerDID : String
deriving DecidableEq

/-- One change of a `ConfChange` or `ConfChangeV2`. -/
inductive ConfChange
  | addNode (id : Nat)
  | removeNode (id : Nat)
deriving DecidableEq

/-- Type and data of a log entry. -/
inductive EntryData
  /-- A normal entry without data, as a new leader appends it. -/
  | empty
  /-- A normal entry with the envelope of `proposePending`. -/
  | proposal (p : RaftProposal)
  /-- A normal entry with a bare array of entries, as older logs have it. -/
  | entries (l : List ThreadEntry)
  /-- A normal entry that decodes as neither. -/
  | malformed
  /-- `EntryConfChange`. -/
  | confChange (cc : ConfChange)
  /-- `EntryConfChangeV2`; the context is the token of the change. -/
  | confChangeV2 (changes : List ConfChange) (context : String)
deriving DecidableEq

/-- `raftpb.Entry`. -/
structure Entry where
  term : Nat
  index : Nat
  data : EntryData
deriving DecidableEq

/-- `raftpb.HardState`. -/
structure HardState where
  term : Nat
  vote : Nat
  commit : Nat
deriving DecidableEq

/-- `raft.IsEmptyHardState`. -/
def HardState.isEmpty (hs : HardState) : Bool := hs = ⟨0, 0, 0⟩

/-- `raftpb.ConfState`; the voters are the part of it the backend looks at. -/
structure ConfState where
  voters : List Nat
deriving DecidableEq

/-- `raftpb.Snapshot`: its metadata.  The backend creates every snapshot with nil data. -/
structure Snapshot where
  index : Nat
  term : Nat
  confState : ConfState
deriving DecidableEq

/-- `raft.IsEmptySnap`. -/
def Snapshot.isEmpty (s : Snapshot) : Bool := s.index = 0

/-- The zero value. -/
def Snapshot.zero : Snapshot := ⟨0, 0, ⟨[]⟩⟩

end MoltMesh.Raftpb

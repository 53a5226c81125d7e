import MoltMesh.Lib.Log
import MoltMesh.Raftpb

/-!
# The storage of etcd/raft

`raft.MemoryStorage`, which the backend hands to the Raft library and keeps beside
its database.  The library is not part of the repository; the methods are modelled
from their documented behaviour.  The first element of `MemoryStorage.ents` is a
placeholder that only has an index and a term; here it is `offset` and
`offsetTerm`, and `ents` are the entries after it.
-/

namespace MoltMesh.Raft

open MoltMesh.Lib Raftpb

/-- `raft.MemoryStorage`. -/
structure MemoryStorage where
  hardState : HardState
  snapshot : Snapshot
  offset : Nat
  offsetTerm : Nat
  ents : List Entry
deriving DecidableEq

namespace MemoryStorage

/-- `raft.NewMemoryStorage`. -/
def new : MemoryStorage := ⟨⟨0, 0, 0⟩, .zero, 0, 0, []⟩

/-- `FirstIndex`. -/
def firstIndex (ms : MemoryStorage) : Nat := ms.offset + 1

/-- `LastIndex`. -/
def lastIndex (ms : MemoryStorage) : Nat := ms.offset + ms.ents.length

/-- `SetHardState`. -/
def setHardState (ms : MemoryStorage) (hs : HardState) : MemoryStorage := { ms with hardState := hs }

/-- `ApplySnapshot`: the log is discarded.  There is no result when the snapshot is out of date,
`ErrSnapOutOfDate`. -/
def applySnapshot (ms : MemoryStorage) (s : Snapshot) : Option MemoryStorage :=
  if s.index ≤ ms.snapshot.index then none
  else some { ms with snapshot := s, offset := s.index, offsetTerm := s.term, ents := [] }

/-- The entries of a batch that are not below the first index. -/
def fresh (ms : MemoryStorage) (entries : List Entry) : List Entry :=
  match entries with
  | [] => []
  | e :: _ => if e.index < ms.firstIndex then entries.drop (ms.firstIndex - e.index) else entries

/-- `Append`: the entries replace what the log has from their first index on.  There is no result
when the method panics because entries are missing in between. -/
def append (ms : MemoryStorage) (entries : List Entry) : Option MemoryStorage :=
  match ms.fresh entries with
  | [] => some ms
  | e :: l =>
    if e.index ≤ ms.offset ∨ ms.lastIndex + 1 < e.index then none
    else some { ms with ents := ms.ents.take (e.index - ms.offset - 1) ++ e :: l }

/-- The term of the entry at an index the log holds. -/
def termAt (ms : MemoryStorage) (i : Nat) : Nat :=
  if i = ms.offset then ms.offsetTerm else ((ms.ents[i - ms.offset - 1]?).map Entry.term).getD 0

/-- The results of `CreateSnapshot`. -/
inductive Created
  | ok (s : Snapshot) (ms : MemoryStorage)
  /-- `ErrSnapOutOfDate`. -/
  | outOfDate
  /-- The index is beyond the log. -/
  | panic

/-- `CreateSnapshot` with nil data. -/
def createSnapshot (ms : MemoryStorage) (i : Nat) (cs : ConfState) : Created :=
  if i ≤ ms.snapshot.index then .outOfDate
  else if ms.lastIndex < i then .panic
  else
    let s : Snapshot := ⟨i, ms.termAt i, cs⟩
    .ok s { ms with snapshot := s }

/-- `Compact`; an index at or below the offset is `ErrCompacted`, which the backend ignores.  There
is no result when the method panics because the index is beyond the log. -/
def compact (ms : MemoryStorage) (i : Nat) : Option MemoryStorage :=
  if i ≤ ms.offset then some ms
  else if ms.lastIndex < i then none
  else some { ms with
    offset := i, offsetTerm := ms.termAt i, ents := ms.ents.drop (i - ms.offset) }

/-- A snapshot is created within the log and beyond the last one. -/
theorem createSnapshot_eq_ok {ms ms' : MemoryStorage} {i : Nat} {cs : ConfState} {s : Snapshot}
    (h : ms.createSnapshot i cs = .ok s ms') :
    ms.snapshot.index < i ∧ i ≤ ms.lastIndex ∧ s.index = i ∧ ms' = { ms with snapshot := s } := by
  unfold createSnapshot at h
  split at h
  · cases h
  · rename_i hnew
    split at h
    · cases h
    · rename_i hlast
      cases h
      exact ⟨Nat.lt_of_not_le hnew, Nat.le_of_not_lt hlast, rfl, rfl⟩

/-- Compacting drops entries at the front. -/
theorem compact_getD (ms : MemoryStorage) (i : Nat) :
    ((ms.compact i).getD ms).hardState = ms.hardState ∧
      ((ms.compact i).getD ms).snapshot = ms.snapshot ∧
      ((ms.compact i).getD ms).lastIndex = ms.lastIndex := by
  unfold compact
  split
  · exact ⟨rfl, rfl, rfl⟩
  · rename_i hoffset
    split
    · exact ⟨rfl, rfl, rfl⟩
    · rename_i hlast
      refine ⟨rfl, rfl, ?_⟩
      rw [lastIndex] at hlast
      change i + (ms.ents.drop (i - ms.offset)).length = ms.offset + ms.ents.length
      rw [List.length_drop]
      omega

end MemoryStorage

end MoltMesh.Raft

import MoltMesh.Raft.Trail

/-!
# The Raft state in the database

`Disk s T snap hs l` says what the three tables hold for a thread: a snapshot, a hard
state, and as rows the entries of a log that begins after the snapshot.  Saving
entries splices them into that log: rows beyond them stay, unlike in the storage of
the Raft library.
-/

namespace MoltMesh

open MoltMesh.Lib Pb Raftpb

variable {s s' : Store} {T : String} {snap : Snapshot} {hs : HardState} {l : List Entry}
  {entries : List Entry}

/-- The snapshot `LoadRaftState` reads. -/
def Store.diskSnapshot (s : Store) (T : String) : Snapshot :=
  ((s.raftSnapshots.lookup T).map Prod.snd).getD .zero

/-- The hard state `LoadRaftState` reads. -/
def Store.diskHardState (s : Store) (T : String) : HardState :=
  ((s.raftHardState.lookup T).map Prod.snd).getD ⟨0, 0, 0⟩

/-- The Raft state of a thread: the rows are those of a log that begins after the snapshot. -/
structure Disk (s : Store) (T : String) (snap : Snapshot) (hs : HardState) (l : List Entry) : Prop where
  snapshot : s.diskSnapshot T = snap
  hardState : s.diskHardState T = hs
  rows : ∀ entry, (T, entry) ∈ s.raftEntries.rows ↔ entry ∈ l
  contiguous : Contiguous Entry.index snap.index l

namespace Disk

theorem congr (h : Disk s T snap hs l) (hsnap : s'.raftSnapshots = s.raftSnapshots)
    (hhs : s'.raftHardState = s.raftHardState) (hrows : s'.raftEntries = s.raftEntries) :
    Disk s' T snap hs l where
  snapshot := by rw [Store.diskSnapshot, hsnap]; exact h.snapshot
  hardState := by rw [Store.diskHardState, hhs]; exact h.hardState
  rows := by rw [hrows]; exact h.rows
  contiguous := h.contiguous

/-- What `LoadRaftState` returns. -/
theorem loadRaftState (h : Disk s T snap hs l) : s.loadRaftState T = (snap, hs, l) := by
  set rows := s.raftEntries.select fun r => r.1 = T ∧ (s.diskSnapshot T).index < r.2.index with hrows
  have hmem (r : String × Entry) : r ∈ rows ↔ r.1 = T ∧ r.2 ∈ l := by
    rw [hrows, Table.mem_select, decide_eq_true_eq, h.snapshot]
    constructor
    · rintro ⟨hr, rfl, -⟩
      exact ⟨rfl, (h.rows r.2).mp hr⟩
    · rintro ⟨rfl, hr⟩
      exact ⟨(h.rows r.2).mpr hr, rfl, (h.contiguous.mem hr).1⟩
  have hnodup : rows.Nodup := List.Nodup.of_map _ (s.raftEntries.nodup_map_select _)
  have hpair : (l.map fun entry => (T, entry)).Pairwise
      fun a b => (a.2.index : Int) < b.2.index :=
    List.pairwise_map.mpr (h.contiguous.pairwise.imp Int.ofNat_lt.mpr)
  have hperm : rows.Perm (l.map fun entry => (T, entry)) := by
    refine (List.perm_ext_iff_of_nodup hnodup ?_).mpr fun r => ?_
    · exact hpair.imp fun hlt heq => absurd hlt (by rw [heq]; exact Int.lt_irrefl _)
    · rw [hmem, List.mem_map]
      constructor
      · rintro ⟨rfl, hr⟩
        exact ⟨r.2, hr, rfl⟩
      · rintro ⟨entry, hentry, rfl⟩
        exact ⟨rfl, hentry⟩
  have hentries : (orderBy (fun r => (r.2.index : Int)) rows).map Prod.snd = l := by
    rw [orderBy_eq_of_perm _ hperm hpair, List.map_map]
    exact List.map_id l
  change (s.diskSnapshot T, s.diskHardState T,
    (orderBy (fun r => (r.2.index : Int)) rows).map Prod.snd) = _
  rw [h.snapshot, h.hardState, hentries]

theorem rows_saveRaftReady {base : Nat} {hs' : HardState}
    (hentries : Contiguous Entry.index base entries) (entry : Entry) :
    (T, entry) ∈ (s.saveRaftReady T hs' entries).raftEntries.rows ↔
      entry ∈ entries ∨ (T, entry) ∈ s.raftEntries.rows ∧ entry.index ∉ entries.map Entry.index := by
  have hkeys : (entries.map fun e => (T, e)).map (fun r => (r.1, r.2.index)) =
      (entries.map Entry.index).map fun i => (T, i) := by
    rw [List.map_map, List.map_map]
    rfl
  have hnodup : ((entries.map fun e => (T, e)).map fun r => (r.1, r.2.index)).Nodup := by
    rw [hkeys]
    refine List.Nodup.map (fun i j hij => (Prod.mk.inj hij).2) ?_
    exact List.pairwise_map.mpr (hentries.pairwise.imp Nat.ne_of_lt)
  have hfold : (s.saveRaftReady T hs' entries).raftEntries =
      (entries.map fun e => (T, e)).foldl Table.insertOrReplace s.raftEntries := by
    rw [List.foldl_map]
    rfl
  rw [hfold, Table.mem_foldl_insertOrReplace hnodup, hkeys, List.mem_map, List.mem_map]
  refine or_congr ⟨?_, fun h => ⟨entry, h, rfl⟩⟩ (and_congr_right fun _ => not_congr ⟨?_, ?_⟩)
  · rintro ⟨e, he, heq⟩
    exact (Prod.mk.inj heq).2 ▸ he
  · rintro ⟨i, hi, heq⟩
    exact (Prod.mk.inj heq).2 ▸ hi
  · exact fun h => ⟨_, h, rfl⟩

theorem diskHardState_saveRaftReady (hs' : HardState) (entries : List Entry) :
    (s.saveRaftReady T hs' entries).diskHardState T =
      if hs'.isEmpty then s.diskHardState T else hs' := by
  rw [Store.diskHardState, Store.saveRaftReady]
  dsimp only
  split
  · rfl
  · rw [show T = Prod.fst (T, hs') from rfl, Table.lookup_insertOrReplace_self]
    rfl

/-- Entries that do not leave a gap are spliced into the log. -/
theorem saveRaftReady (h : Disk s T snap hs l) {n : Nat} (hs' : HardState)
    (hentries : Contiguous Entry.index (snap.index + n) entries) (hn : n ≤ l.length) :
    Disk (s.saveRaftReady T hs' entries) T snap (if hs'.isEmpty then hs else hs')
      (splice l n entries) where
  snapshot := h.snapshot
  hardState := by rw [diskHardState_saveRaftReady, h.hardState]
  rows entry := by
    rw [rows_saveRaftReady hentries, h.contiguous.mem_splice hentries hn, h.rows]
  contiguous := h.contiguous.splice hentries hn

theorem rows_saveRaftSnapshot (snap' : Snapshot) (entry : Entry) :
    (T, entry) ∈ (s.saveRaftSnapshot T snap').raftEntries.rows ↔
      (T, entry) ∈ s.raftEntries.rows ∧ snap'.index < entry.index := by
  refine Table.mem_deleteWhere.trans (and_congr_right fun _ => ?_)
  rw [decide_eq_false_iff_not]
  exact ⟨fun h => Nat.lt_of_not_le fun hle => h ⟨rfl, hle⟩, fun h hand => absurd h (Nat.not_lt_of_le hand.2)⟩

theorem diskSnapshot_saveRaftSnapshot (snap' : Snapshot) :
    (s.saveRaftSnapshot T snap').diskSnapshot T = snap' := by
  rw [Store.diskSnapshot, Store.saveRaftSnapshot]
  dsimp only
  rw [show T = Prod.fst (T, snap') from rfl, Table.lookup_insertOrReplace_self]
  rfl

/-- What a log keeps above an index. -/
theorem mem_drop_iff (h : Contiguous Entry.index snap.index l) {i : Nat} (hi : snap.index ≤ i)
    {entry : Entry} : entry ∈ l.drop (i - snap.index) ↔ entry ∈ l ∧ i < entry.index := by
  constructor
  · intro hentry
    refine ⟨List.mem_of_mem_drop hentry, ?_⟩
    have hle : i - snap.index ≤ l.length := by
      by_contra hgt
      rw [List.drop_eq_nil_of_le (Nat.le_of_not_le hgt)] at hentry
      exact absurd hentry List.not_mem_nil
    have hidx := ((h.drop hle).mem hentry).1
    omega
  · rintro ⟨hentry, hlt⟩
    have hnot : entry ∉ l.take (i - snap.index) := by
      rw [h.mem_take_iff hentry]
      omega
    rw [← List.take_append_drop (i - snap.index) l] at hentry
    exact (List.mem_append.mp hentry).resolve_left hnot

/-- A snapshot within the log drops the entries up to it. -/
theorem saveRaftSnapshot (h : Disk s T snap hs l) {snap' : Snapshot} (hlo : snap.index ≤ snap'.index)
    (hhi : snap'.index ≤ snap.index + l.length) :
    Disk (s.saveRaftSnapshot T snap') T snap' hs (l.drop (snap'.index - snap.index)) where
  snapshot := diskSnapshot_saveRaftSnapshot snap'
  hardState := h.hardState
  rows entry := by rw [rows_saveRaftSnapshot, h.rows, mem_drop_iff h.contiguous hlo]
  contiguous := by
    have hdrop := h.contiguous.drop (n := snap'.index - snap.index) (by omega)
    rwa [Nat.add_sub_cancel' hlo] at hdrop

/-- A batch with a snapshot: the entries that come with it follow it, and so do the old ones beyond
them. -/
theorem install (h : Disk s T snap hs l) {snap' : Snapshot} (hs' : HardState)
    (hlo : snap.index ≤ snap'.index) (hentries : Contiguous Entry.index snap'.index entries) :
    Disk ((s.saveRaftReady T hs' entries).saveRaftSnapshot T snap') T snap'
      (if hs'.isEmpty then hs else hs') (splice (l.drop (snap'.index - snap.index)) 0 entries) := by
  have hdrop : Contiguous Entry.index snap'.index (l.drop (snap'.index - snap.index)) := by
    by_cases hle : snap'.index - snap.index ≤ l.length
    · have hdrop := h.contiguous.drop hle
      rwa [Nat.add_sub_cancel' hlo] at hdrop
    · rw [List.drop_eq_nil_of_le (Nat.le_of_not_le hle)]
      trivial
  have hentries₀ : Contiguous Entry.index (snap'.index + 0) entries := hentries
  refine ⟨diskSnapshot_saveRaftSnapshot snap', ?_, fun entry => ?_,
    hdrop.splice hentries₀ (Nat.zero_le _)⟩
  · exact (diskHardState_saveRaftReady hs' entries).trans (by rw [h.hardState])
  · rw [rows_saveRaftSnapshot, rows_saveRaftReady hentries, h.rows,
      hdrop.mem_splice hentries₀ (Nat.zero_le _), mem_drop_iff h.contiguous hlo]
    constructor
    · rintro ⟨hin | ⟨hin, hnot⟩, hlt⟩
      · exact .inl hin
      · exact .inr ⟨⟨hin, hlt⟩, hnot⟩
    · rintro (hin | ⟨⟨hin, hlt⟩, hnot⟩)
      · exact ⟨.inl hin, (hentries.mem hin).1⟩
      · exact ⟨.inr ⟨hin, hnot⟩, hlt⟩

end Disk

end MoltMesh

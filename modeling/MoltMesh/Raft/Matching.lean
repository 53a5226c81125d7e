import MoltMesh.Raft.Descriptors

/-!
# The log a replica starts with

A replica without a saved Raft log starts in one of two ways.  Without blocks its Raft node is
bootstrapped, with one configuration change for each of the first `N` replicas of the descriptor
it has.  With blocks the log is rebuilt from them: the height of a block is taken for an index,
its round for a term.

Neither is the log of the group in general.  The group was bootstrapped with the `N` of its
creation, so that a promotion makes the descriptor name more voters than the log begins with; and
the log has entries that make no block, so that heights are not indices (`log_matching_iff`).
-/

namespace MoltMesh.Raft

open MoltMesh.Lib Pb Raftpb

variable {N : Node} {env : Env} {T : Thread} {s : Store} {start : NodeStart} {e : Backend}
  {x : Entry} {threadID : String} {ms : MemoryStorage}

/-! ## Histories -/

/-- The entries `raft.StartNode` puts into the log, all of them committed. -/
def bootEntries (peers : List Nat) : List Entry :=
  peers.zipIdx.map fun (id, i) => ⟨1, i + 1, .confChange (.addNode id)⟩

/-- What is appended to the log of a group: the empty entry of a new leader, a proposal, or a change of
voters. -/
def Made (entry : Entry) : Prop :=
  match entry.data with
  | .empty => True
  | .proposal _ => True
  | .confChangeV2 _ _ => True
  | _ => False

/-- The history of a Raft thread: how it was created, and what its log has after the entries it was
bootstrapped with. -/
structure History where
  genesis : Thread
  nodup : genesis.replicaDids.Nodup
  later : List Entry
  made : ∀ entry ∈ later, Made entry
  index : ∀ i entry, later[i]? = some entry → entry.index = voterCount genesis + 1 + i
  /-- The length of the committed log. -/
  committed : Nat
  boot_le : voterCount genesis ≤ committed

namespace History

variable (H : History)

/-- The log of the group. -/
def log : List Entry := bootEntries (voterIDs H.genesis) ++ H.later

/-- The committed log of the group. -/
def committedLog : List Entry := H.log.take H.committed

/-- A descriptor of the thread: what some replica has made of the one at creation by applying entries and
blocks. -/
def Current (T : Thread) : Prop :=
  ∃ N env s start e₀ e, newRaftBackend N env H.genesis s = .ok (start, e₀) ∧
    Relation.ReflTransGen (Applies N fun _ _ _ => True) e₀ e ∧ e.thread = T

end History

/-- The log a replica starts with. -/
def initialLog (e : Backend) : NodeStart → List Entry
  | .start peers => bootEntries peers
  | .restart => e.storage.ents

/-- The index up to which it takes the log for committed. -/
def initialCommit (e : Backend) : NodeStart → Nat
  | .start peers => peers.length
  | .restart => e.storage.hardState.commit

/-- Log matching: entries with the same index and term as one of the group's log are that entry, and what is
taken for committed is in the committed log. -/
structure Matches (H : History) (start : NodeStart) (e : Backend) : Prop where
  same : ∀ x ∈ initialLog e start, ∀ y ∈ H.log, x.index = y.index → x.term = y.term → x = y
  committed : ∀ x ∈ initialLog e start, x.index ≤ initialCommit e start → x ∈ H.committedLog

/-! ## Bootstrapping -/

theorem mem_bootEntries_range' {n : Nat} :
    x ∈ bootEntries (List.range' 1 n) ↔ ∃ i, i < n ∧ x = ⟨1, i + 1, .confChange (.addNode (i + 1))⟩ := by
  simp only [bootEntries, List.mem_map, Prod.exists, List.mk_mem_zipIdx_iff_getElem?]
  constructor
  · rintro ⟨id, i, hget, rfl⟩
    obtain ⟨hi, rfl⟩ := List.getElem?_eq_some_iff.mp hget
    rw [List.length_range'] at hi
    refine ⟨i, hi, ?_⟩
    rw [List.getElem_range']
    congr 3
    omega
  · rintro ⟨i, hi, rfl⟩
    refine ⟨i + 1, i, ?_, rfl⟩
    rw [List.getElem?_range' hi]
    congr 1
    omega

theorem length_bootEntries (peers : List Nat) : (bootEntries peers).length = peers.length := by
  rw [bootEntries, List.length_map, List.length_zipIdx]

namespace History

variable {H : History}

theorem log_eq (H : History) : H.log = bootEntries (List.range' 1 (voterCount H.genesis)) ++ H.later := by
  rw [log, voterIDs_eq_range' H.nodup]

theorem mem_log : x ∈ H.log ↔
    (∃ i, i < voterCount H.genesis ∧ x = ⟨1, i + 1, .confChange (.addNode (i + 1))⟩) ∨ x ∈ H.later := by
  rw [log_eq, List.mem_append, mem_bootEntries_range']

/-- The entries of the log are in their places. -/
theorem index_pos_of_mem_later (h : x ∈ H.later) : voterCount H.genesis < x.index := by
  obtain ⟨i, hi⟩ := List.mem_iff_getElem?.mp h
  have hindex := H.index i x hi
  omega

/-- A bare list of entries is not in the log. -/
theorem entries_notMem_log {l : List ThreadEntry} (hx : x.data = .entries l) : x ∉ H.log := by
  rw [mem_log]
  rintro (⟨i, -, rfl⟩ | hmem)
  · cases hx
  · have hmade := H.made x hmem
    rw [Made, hx] at hmade
    exact hmade

theorem bootEntry_mem_committedLog {i : Nat} (hi : i < voterCount H.genesis) :
    (⟨1, i + 1, .confChange (.addNode (i + 1))⟩ : Entry) ∈ H.committedLog := by
  have hlen : (bootEntries (List.range' 1 (voterCount H.genesis))).length ≤ H.committed := by
    rw [length_bootEntries, List.length_range']
    exact H.boot_le
  rw [committedLog, log_eq, List.take_append, List.take_of_length_le hlen]
  exact List.mem_append_left _ (mem_bootEntries_range'.mpr ⟨i, hi, rfl⟩)

theorem Current.nodup (h : H.Current T) : T.replicaDids.Nodup := by
  obtain ⟨N, env, s, start, e₀, e, hnew, hrun, rfl⟩ := h
  suffices hroster : e.roster = .ofDids e.thread.replicaDids ∧ e.thread.replicaDids.Nodup from hroster.2
  induction hrun with
  | refl =>
    obtain ⟨selfID, storage, -, rfl⟩ := newRaftBackend_eq_builtOn hnew
    exact ⟨rfl, H.nodup⟩
  | @tail e₁ e₂ _ hstep ih =>
    obtain ⟨env', a, -, rfl⟩ := hstep
    obtain ⟨δ, hδ⟩ := arrive_joins N env' e₁ a
    have hjoined := hδ.roster
    rw [ih.1, Roster.foldl_join_ofDids] at hjoined
    have hdids : (arrive N env' e₁ a).thread.replicaDids =
        (storedEntries δ).foldl Roster.joinDids e₁.thread.replicaDids :=
      congrArg Roster.replicaDids hjoined
    exact ⟨by rw [hjoined, hdids], by rw [hdids]; exact Roster.nodup_foldl_joinDids ih.2 _⟩

end History

/-- A bootstrapped log is the group's, unless it has more voters than the group began with. -/
theorem matches_start_iff (H : History) (hT : T.replicaDids.Nodup) :
    Matches H (.start (voterIDs T)) e ↔ voterCount T ≤ voterCount H.genesis := by
  rw [voterIDs_eq_range' hT]
  constructor
  · intro h
    by_contra hlt
    have hmem : (⟨1, voterCount H.genesis + 1, .confChange (.addNode (voterCount H.genesis + 1))⟩ : Entry) ∈
        bootEntries (List.range' 1 (voterCount T)) :=
      mem_bootEntries_range'.mpr ⟨_, not_le.mp hlt, rfl⟩
    have hcommit := h.committed _ hmem (by
      rw [initialCommit, List.length_range']
      exact not_le.mp hlt)
    rcases History.mem_log.mp (List.mem_of_mem_take hcommit) with ⟨i, hi, heq⟩ | hlater
    · have hindex := congrArg Entry.index heq
      dsimp only at hindex
      omega
    · exact H.made _ hlater
  · intro hle
    refine ⟨fun x hx y hy hindex _ => ?_, fun x hx _ => ?_⟩
    · obtain ⟨i, hi, rfl⟩ := mem_bootEntries_range'.mp hx
      rcases History.mem_log.mp hy with ⟨k, hk, rfl⟩ | hlater
      · dsimp only at hindex
        obtain rfl : i = k := by omega
        rfl
      · have hbeyond := History.index_pos_of_mem_later hlater
        dsimp only at hindex
        omega
    · obtain ⟨i, hi, rfl⟩ := mem_bootEntries_range'.mp hx
      exact History.bootEntry_mem_committedLog (lt_of_lt_of_le hi hle)

/-! ## Rebuilding -/

/-- The blocks a log is rebuilt from. -/
def storedBlocks (s : Store) (threadID : String) : List ThreadBlock :=
  s.getBlocksSince threadID 0 (s.getCommittedHeight threadID).toNat

theorem mem_storedBlocks {b : ThreadBlock} (h : b ∈ storedBlocks s threadID) :
    0 < b.height ∧ ∃ r ∈ s.blocks.rows, r.block = b := by
  unfold storedBlocks Store.getBlocksSince at h
  obtain ⟨r, hr, rfl⟩ := List.mem_map.mp h
  have hrow : r ∈ orderBy BlockRow.height
      ((s.committedBlocks threadID).filter fun r => 0 < r.height) := by
    split at hr
    · exact hr
    · exact List.mem_of_mem_take hr
  obtain ⟨hmem, hpos⟩ := List.mem_filter.mp ((mem_orderBy _).mp hrow)
  exact ⟨of_decide_eq_true hpos, r, (Table.mem_select.mp hmem).1, rfl⟩

/-- A thread with a committed height has a stored block. -/
theorem storedBlocks_ne_nil (h : 0 < s.getCommittedHeight threadID) :
    storedBlocks s threadID ≠ [] := by
  obtain ⟨r, hr, hheight⟩ : ∃ r ∈ s.committedBlocks threadID, r.height = s.getCommittedHeight threadID := by
    unfold Store.getCommittedHeight Store.maxHeight at h ⊢
    cases hmax : ((s.committedBlocks threadID).map BlockRow.height).max? with
    | none =>
      rw [hmax] at h
      exact absurd h (lt_irrefl 0)
    | some m =>
      obtain ⟨r, hr, heq⟩ := List.mem_map.mp (List.max?_mem hmax)
      exact ⟨r, hr, heq⟩
  have hmem : r ∈ orderBy BlockRow.height ((s.committedBlocks threadID).filter fun r => 0 < r.height) :=
    (mem_orderBy _).mpr (List.mem_filter.mpr ⟨hr, decide_eq_true (hheight ▸ h)⟩)
  have hlimit : (s.getCommittedHeight threadID).toNat ≠ 0 := by omega
  unfold storedBlocks Store.getBlocksSince
  dsimp only
  rw [if_neg hlimit, Ne, List.map_eq_nil_iff, List.take_eq_nil_iff, not_or]
  exact ⟨hlimit, List.ne_nil_of_mem hmem⟩

theorem toUint64_of_lt {n : Int} (hpos : 0 < n) (hlt : n < 2 ^ 63) : toUint64 n = n.toNat := by
  rw [toUint64, Int.emod_eq_of_lt hpos.le (by omega)]

/-- What is appended to a new storage becomes its log. -/
theorem ents_of_append {entries : List Entry}
    (hpos : ∀ x ∈ entries, 0 < x.index) (h : MemoryStorage.new.append entries = some ms) :
    ms.ents = entries ∧ ms.hardState = ⟨0, 0, 0⟩ ∧ ∀ x ∈ entries.head?, x.index = 1 := by
  cases entries with
  | nil =>
    cases h
    exact ⟨rfl, rfl, fun x hx => by cases hx⟩
  | cons x l =>
    have hx := hpos x List.mem_cons_self
    have hfresh : MemoryStorage.new.fresh (x :: l) = x :: l := if_neg (by
      change ¬x.index < 1
      omega)
    rw [MemoryStorage.append, hfresh] at h
    dsimp only at h
    split at h
    · cases h
    · rename_i hfits
      cases h
      have hone : x.index = 1 := by
        have hle : ¬(0 + 0 + 1 < x.index) := fun hlt => hfits (.inr hlt)
        omega
      refine ⟨?_, rfl, fun y hy => ?_⟩
      · change ([] : List Entry).take _ ++ x :: l = x :: l
        rw [List.take_nil, List.nil_append]
      · obtain rfl := Option.some.inj hy
        exact hone

/-- A commit index is restored from the consensus state, beside a log rebuilt from blocks. -/
def restoresCommit (s : Store) (threadID : String) : Prop :=
  (1 < (s.loadConsensusState threadID).height ∨ 0 < (s.loadConsensusState threadID).round) ∧
    toUint64 (s.loadConsensusState threadID).round.toInt ≠ 0

/-- Without a saved Raft log the storage is new. -/
theorem loadExact_of_not_hasExactState (hexact : hasExactState s threadID = false) :
    loadExact s threadID = some .new := by
  have hload : (s.loadRaftState threadID).1.isEmpty = true ∧ (s.loadRaftState threadID).2.2 = [] := by
    unfold hasExactState at hexact
    dsimp only at hexact
    simp only [Bool.or_eq_false_iff, Bool.not_eq_false', decide_eq_false_iff_not, not_not] at hexact
    exact ⟨hexact.1.1, hexact.2⟩
  unfold loadExact
  dsimp only
  rw [if_pos hload.1, hload.2]
  rfl

/-- Without a saved Raft log and without blocks there is no log. -/
theorem ents_of_no_blocks (hexact : hasExactState s threadID = false)
    (hheight : ¬0 < s.getCommittedHeight threadID) (h : loadStorage s threadID = some ms) : ms.ents = [] := by
  have hlog : loadLog s threadID = some (.new, exactLastIndex s threadID) := by
    unfold loadLog
    rw [loadExact_of_not_hasExactState hexact, hexact]
    simp only [Option.bind_eq_bind, Option.bind_some, Bool.false_and, Bool.false_eq_true, if_false,
      if_neg hheight]
    rfl
  unfold loadStorage at h
  rw [hlog] at h
  simp only [Option.bind_eq_bind, Option.bind_some] at h
  split at h <;> (cases h; rfl)

/-- Without a saved Raft log, but with blocks, the log is rebuilt from the blocks. -/
theorem loadStorage_rebuilt (hexact : hasExactState s threadID = false)
    (hheight : 0 < s.getCommittedHeight threadID) (hrows : ∀ r ∈ s.blocks.rows, r.height < 2 ^ 63)
    (h : loadStorage s threadID = some ms) :
    ms.ents = blockEntries s threadID ∧ (∀ x ∈ ms.ents, 0 < x.index) ∧ (∀ x ∈ ms.ents.head?, x.index = 1) ∧
      (ms.hardState.commit = 0 ↔ ¬restoresCommit s threadID) := by
  have hpos : ∀ x ∈ blockEntries s threadID, 0 < x.index := by
    intro x hx
    obtain ⟨b, hb, rfl⟩ := List.mem_map.mp hx
    obtain ⟨hb0, r, hr, rfl⟩ := mem_storedBlocks hb
    change 0 < toUint64 r.block.height
    rw [toUint64_of_lt hb0 (hrows r hr)]
    omega
  have hloadExact := loadExact_of_not_hasExactState hexact
  have hlog : loadLog s threadID = (MemoryStorage.new.append (blockEntries s threadID)).map fun ms =>
      (ms, (((blockEntries s threadID).getLast?).map Entry.index).getD (exactLastIndex s threadID)) := by
    unfold loadLog
    rw [hloadExact, hexact]
    simp only [Option.bind_eq_bind, Option.bind_some, Bool.false_and, Bool.false_eq_true, if_false,
      if_pos hheight]
    cases MemoryStorage.new.append (blockEntries s threadID) <;> rfl
  have hne : blockEntries s threadID ≠ [] := fun hnil =>
    storedBlocks_ne_nil hheight (List.map_eq_nil_iff.mp hnil)
  have hlast : ((blockEntries s threadID).getLast?.map Entry.index).getD (exactLastIndex s threadID) ≠ 0 := by
    rw [List.getLast?_eq_some_getLast hne]
    exact (hpos _ (List.getLast_mem hne)).ne'
  unfold loadStorage at h
  rw [hlog, hexact] at h
  cases happ : MemoryStorage.new.append (blockEntries s threadID) with
  | none =>
    rw [happ] at h
    cases h
  | some ms₀ =>
    rw [happ] at h
    simp only [Option.map_some, Option.bind_eq_bind, Option.bind_some, Bool.not_false, Bool.true_and,
      decide_eq_true_eq] at h
    obtain ⟨hents, hhard, hhead⟩ := ents_of_append hpos happ
    split at h
    · rename_i hstate
      cases h
      refine ⟨hents, by rw [MemoryStorage.setHardState, hents]; exact hpos,
        by rw [MemoryStorage.setHardState, hents]; exact hhead, ?_⟩
      change min _ _ = 0 ↔ _
      rw [Nat.min_eq_zero_iff, or_iff_left hlast, restoresCommit, not_and, not_not]
      exact ⟨fun h _ => h, fun h => h hstate⟩
    · rename_i hstate
      cases h
      refine ⟨hents, by rw [hents]; exact hpos, by rw [hents]; exact hhead, ?_⟩
      rw [hhard]
      exact ⟨fun _ h => hstate h.1, fun _ => rfl⟩

/-- A rebuilt log is never the group's: it matches if no entry of the group has the place of one of its
entries and nothing is taken for committed. -/
theorem matches_restart_iff (H : History) (hents : e.storage.ents = blockEntries s threadID)
    (hpos : ∀ x ∈ e.storage.ents, 0 < x.index) (hhead : ∀ x ∈ e.storage.ents.head?, x.index = 1)
    (hne : e.storage.ents ≠ []) :
    Matches H .restart e ↔ (∀ b ∈ storedBlocks s threadID, ∀ y ∈ H.log,
      ¬(y.index = toUint64 b.height ∧ y.term = toUint64 b.round.toInt)) ∧ e.storage.hardState.commit = 0 := by
  have hforeign {x : Entry} (hx : x ∈ e.storage.ents) : x ∉ H.log := by
    rw [hents] at hx
    obtain ⟨b, -, rfl⟩ := List.mem_map.mp hx
    exact History.entries_notMem_log rfl
  constructor
  · intro h
    constructor
    · rintro b hb y hy ⟨hindex, hterm⟩
      have hx : blockEntry b ∈ e.storage.ents := by
        rw [hents]
        exact List.mem_map_of_mem hb
      have heq := h.same _ hx y hy hindex.symm hterm.symm
      exact hforeign hx (heq ▸ hy)
    · by_contra hcommit
      obtain ⟨x, l, hcons⟩ := List.exists_cons_of_ne_nil hne
      have hx : x ∈ e.storage.ents := by
        rw [hcons]
        exact List.mem_cons_self
      have hone : x.index = 1 := hhead x (by rw [hcons]; rfl)
      refine hforeign hx (List.mem_of_mem_take (h.committed x hx ?_))
      change x.index ≤ e.storage.hardState.commit
      omega
  · rintro ⟨hclash, hcommit⟩
    refine ⟨fun x hx y hy hindex hterm => ?_, fun x hx hle => ?_⟩
    · change x ∈ e.storage.ents at hx
      rw [hents] at hx
      obtain ⟨b, hb, rfl⟩ := List.mem_map.mp hx
      exact absurd ⟨hindex.symm, hterm.symm⟩ (hclash b hb y hy)
    · change x.index ≤ e.storage.hardState.commit at hle
      have := hpos x hx
      omega

/-- **When a replica starts with the log of the group**, if it has saved none.  Without blocks: if the
descriptor has no more voters than the thread was created with.  With blocks: if no block has the index and
term of an entry for its height and round, and no commit index is restored. -/
theorem log_matching_iff (H : History) (hT : H.Current T) (hnew : newRaftBackend N env T s = .ok (start, e))
    (hexact : hasExactState s T.id = false) (hrows : ∀ r ∈ s.blocks.rows, r.height < 2 ^ 63) :
    Matches H start e ↔
      (s.getCommittedHeight T.id = 0 → voterCount T ≤ voterCount H.genesis) ∧
      (0 < s.getCommittedHeight T.id → (∀ b ∈ storedBlocks s T.id, ∀ y ∈ H.log,
        ¬(y.index = toUint64 b.height ∧ y.term = toUint64 b.round.toInt)) ∧ ¬restoresCommit s T.id) := by
  obtain ⟨-, -, -, hstorage, -⟩ := newRaftBackend_eq_ok hnew
  -- To release claims changes none of what is loaded.
  have hload : loadStorage s T.id = some e.storage := hstorage
  have hstart : start = if s.getCommittedHeight T.id = 0 then .start (voterIDs T) else .restart := by
    have hexact' : hasExactState (s.releasePendingClaims T.id) T.id = false := hexact
    have hheight : (s.releasePendingClaims T.id).getCommittedHeight T.id = s.getCommittedHeight T.id := rfl
    unfold newRaftBackend at hnew
    dsimp only at hnew
    split at hnew
    · cases hnew
    split at hnew
    · cases hnew
    split at hnew
    · cases hnew
    split at hnew
    · cases hnew
    rw [hexact', hheight] at hnew
    simp only [Bool.not_false, Bool.true_and, decide_eq_true_eq] at hnew
    split at hnew
    · rename_i hzero
      rw [if_pos hzero]
      exact (Prod.mk.inj (Except.ok.inj hnew)).1.symm
    · rename_i hzero
      rw [if_neg hzero]
      split at hnew
      · exact (Prod.mk.inj (Except.ok.inj hnew)).1.symm
      · cases hnew
  rcases lt_trichotomy (s.getCommittedHeight T.id) 0 with hneg | hzero | hheight
  · -- Only blocks that nobody counts are stored, and the log is empty.
    rw [if_neg hneg.ne] at hstart
    have hents := ents_of_no_blocks hexact hneg.not_gt hload
    refine iff_of_true ?_ ⟨fun h => absurd h hneg.ne, fun h => absurd h hneg.not_gt⟩
    rw [hstart]
    constructor <;> (intro x hx; rw [initialLog, hents] at hx; exact absurd hx List.not_mem_nil)
  · rw [if_pos hzero] at hstart
    rw [hstart, matches_start_iff H hT.nodup]
    exact ⟨fun h => ⟨fun _ => h, fun hlt => absurd hzero hlt.ne'⟩, fun h => h.1 hzero⟩
  · rw [if_neg hheight.ne'] at hstart
    obtain ⟨hents, hpos, hhead, hcommit⟩ := loadStorage_rebuilt hexact hheight hrows hload
    have hne : e.storage.ents ≠ [] := by
      rw [hents]
      exact fun hnil => storedBlocks_ne_nil hheight (List.map_eq_nil_iff.mp hnil)
    rw [hstart, matches_restart_iff H hents hpos hhead hne, hcommit]
    exact ⟨fun h => ⟨fun h₀ => absurd h₀ hheight.ne', fun _ => h⟩, fun h => h.2 hheight⟩

namespace Trio

/-- A thread of one voter whose second replica has been promoted. -/
def ballot : History where
  genesis := solo
  nodup := by decide
  later := [promotion 2]
  made entry h := by
    obtain rfl := List.mem_singleton.mp h
    trivial
  index i entry h := by
    obtain ⟨hi, rfl⟩ := List.getElem?_eq_some_iff.mp h
    obtain rfl : i = 0 := by simpa using hi
    rfl
  committed := 2
  boot_le := by decide

/-- The same thread when two entries have been committed in the second term instead. -/
def minutes : History where
  genesis := solo
  nodup := by decide
  later := [⟨2, 2, .empty⟩, ⟨2, 3, .proposal ⟨[1], [post], "d1"⟩⟩, ⟨2, 4, .proposal ⟨[2], [post], "d1"⟩⟩]
  made entry h := by
    simp only [List.mem_cons, List.not_mem_nil, or_false] at h
    rcases h with rfl | rfl | rfl <;> trivial
  index i entry h := by
    obtain ⟨hi, rfl⟩ := List.getElem?_eq_some_iff.mp h
    have hlt : i < 3 := hi
    interval_cases i <;> rfl
  committed := 4
  boot_le := by decide

/-- The first block of that thread. -/
def page1 : ThreadBlock := fillBlock "t" 2 [post] "d1" 1 1 ""

/-- The second one. -/
def page2 : ThreadBlock := fillBlock "t" 2 [post] "d1" 1 2 page1.blockHash

/-- The database of a replica that has both blocks and no Raft log. -/
def archive : Store := (Store.empty.saveBlock page1).saveBlock page2

theorem current_promoted : ballot.Current (promoted 2).thread :=
  ⟨node 0, calm, Store.empty.saveThread solo, .start [1], chair, promoted 2, newRaftBackend_chair,
    .single ⟨promoting 2, .entry (promotion 2), trivial, rfl⟩, rfl⟩

theorem current_solo (H : History) (h : H.genesis = solo) : H.Current solo :=
  ⟨node 0, calm, Store.empty.saveThread solo, .start [1], chair, chair, by rw [h]; exact newRaftBackend_chair,
    .refl, rfl⟩

/-- **Two replicas that start with another log**: the promoted one has a second entry for itself where the
group's log has the promotion, in the same term; one with two blocks has the second of them where the log has
the empty entry of the leader. -/
theorem start_logs_differ :
    (∃ e, newRaftBackend (node 1) calm (promoted 2).thread .empty = .ok (.start [1, 2], e) ∧
      ballot.Current (promoted 2).thread ∧ ¬Matches ballot (.start [1, 2]) e) ∧
    ∃ e, newRaftBackend (node 1) calm solo archive = .ok (.restart, e) ∧
      minutes.Current solo ∧ ¬Matches minutes .restart e := by
  refine ⟨⟨_, rfl, current_promoted, fun h => ?_⟩, ⟨_, rfl, current_solo minutes rfl, fun h => ?_⟩⟩
  · have hx : (⟨1, 2, .confChange (.addNode 2)⟩ : Entry) ∈ bootEntries [1, 2] := by decide
    have hy : promotion 2 ∈ ballot.log := by decide +kernel
    have heq := h.same _ hx _ hy rfl rfl
    cases heq
  · have hy : (⟨2, 2, .empty⟩ : Entry) ∈ minutes.log := by decide +kernel
    have heq := h.same ⟨2, 2, .entries [post]⟩ (List.mem_cons_of_mem _ (List.mem_singleton_self _)) _ hy rfl rfl
    cases heq

/-- The creator's replica starts with the log of the group. -/
theorem log_matching_chair :
    newRaftBackend (node 0) calm solo (Store.empty.saveThread solo) = .ok (.start [1], chair) ∧
      Matches ballot (.start [1]) chair := by
  refine ⟨newRaftBackend_chair, (log_matching_iff ballot (current_solo ballot rfl) newRaftBackend_chair
    (by decide +kernel) (fun r hr => absurd hr List.not_mem_nil)).mpr ⟨fun _ => le_rfl, fun h => ?_⟩⟩
  exact absurd h (by decide +kernel)

end Trio

end MoltMesh.Raft

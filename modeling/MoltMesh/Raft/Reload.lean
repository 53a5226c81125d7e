import MoltMesh.Raft.Durable

/-!
# Stopping and starting again

A replica handles batches and takes snapshots, its process stops after any of the
effects of a call, and it is built anew from the database.  The commit index it
finds there is within the log it finds there (`Loadable`), unless a process has
stopped between the two transactions of a batch with a snapshot: then the hard
state is that of the snapshot and the log is not.
-/

namespace MoltMesh.Raft

open MoltMesh.Lib Pb Raftpb

variable {N : Node} {env : Env} {e e' : Backend} {T : String} {ms ms' : MemoryStorage} {rd : Ready}
  {s s' : Store} {snap : Snapshot} {hs : HardState} {l : List Entry} {α : List Effect}

/-! ## What can be loaded -/

/-- A database from which a Raft node can be started: its commit index is within its log. -/
structure Loadable (s : Store) (T : String) (snap : Snapshot) (hs : HardState) (l : List Entry) :
    Prop where
  disk : Disk s T snap hs l
  lower : snap.index ≤ hs.commit
  upper : hs.commit ≤ snap.index + l.length
  unborn : Unborn s T hs

theorem Blank.loadable (h : Blank s T) : Loadable s T .zero ⟨0, 0, 0⟩ [] :=
  ⟨h.disk, Nat.le_refl _, Nat.zero_le _, fun _ => ⟨h.blocks, h.consensusState⟩⟩

theorem Loadable.loadStorage (h : Loadable s T snap hs l) :
    loadStorage (s.releasePendingClaims T) T = some (loaded snap hs l) :=
  loadStorage_of_disk (h.disk.congr rfl rfl rfl) h.unborn

theorem loaded_eq (snap : Snapshot) (hs : HardState) (l : List Entry) :
    (loaded snap hs l).hardState = hs ∧ (loaded snap hs l).snapshot.index = snap.index ∧
      (loaded snap hs l).offset = snap.index ∧
      (loaded snap hs l).lastIndex = snap.index + l.length := by
  unfold loaded
  split
  · rename_i hempty
    have hzero : snap.index = 0 := of_decide_eq_true hempty
    rw [hzero]
    exact ⟨rfl, rfl, rfl, rfl⟩
  · exact ⟨rfl, rfl, rfl, rfl⟩

theorem Loadable.restartable (h : Loadable s T snap hs l) : restartable (loaded snap hs l) = true := by
  obtain ⟨hhs, -, hoffset, hlast⟩ := loaded_eq snap hs l
  rw [Raft.restartable, hhs, hoffset, hlast, Bool.or_eq_true, decide_eq_true_eq]
  exact .inr ⟨h.lower, h.upper⟩

/-! ## A replica that is up -/

/-- The database is not behind the storage of the Raft node. -/
structure Backed (s : Store) (T : String) (ms : MemoryStorage) (snap : Snapshot) (l : List Entry) :
    Prop where
  disk : Disk s T snap ms.hardState l
  older : snap.index ≤ ms.snapshot.index
  snapshot : ms.snapshot.index ≤ ms.hardState.commit
  commit : ms.hardState.commit ≤ ms.lastIndex
  last : ms.lastIndex ≤ snap.index + l.length
  unborn : Unborn s T ms.hardState

theorem Backed.loadable (h : Backed s T ms snap l) : Loadable s T snap ms.hardState l :=
  ⟨h.disk, Nat.le_trans h.older h.snapshot, Nat.le_trans h.commit h.last, h.unborn⟩

theorem Backed.sameRaft (h : Backed s T ms snap l) (hne : ms.hardState.isEmpty = false)
    (hs : SameRaft s s') : Backed s' T ms snap l :=
  { h with
    disk := disk_sameRaft h.disk hs
    unborn := fun hempty => by rw [hne] at hempty; cases hempty }

theorem nextHardState_isEmpty (hv : ValidReady ms rd) :
    (nextHardState ms.hardState rd).isEmpty = false := by
  unfold nextHardState
  cases hrd : rd.hardState.isEmpty with
  | false => exact hrd
  | true =>
    rw [if_pos rfl]
    cases hms : ms.hardState.isEmpty with
    | false => rfl
    | true => exact absurd hrd (by rw [hv.hardState hms]; exact Bool.false_ne_true)

/-- The commit index after a batch is within the storage after it. -/
theorem next_commit_le (hv : ValidReady ms rd) (hold : ms.hardState.commit ≤ ms'.lastIndex)
    (happ : (installed ms rd).append rd.entries = some ms') :
    (nextHardState ms.hardState rd).commit ≤ ms'.lastIndex := by
  unfold nextHardState
  split
  · exact hold
  · rename_i hne
    exact (hv.commit (Bool.eq_false_of_not_eq_true hne)).2 ms' happ

theorem snapshot_le_next (hv : ValidReady ms rd) (hsnap : rd.snapshot.isEmpty = false) :
    rd.snapshot.index ≤ (nextHardState ms.hardState rd).commit := by
  obtain ⟨hnew, hcommitted⟩ := hv.snapshot hsnap
  unfold nextHardState
  split
  · rename_i hempty
    have hzero : rd.hardState = ⟨0, 0, 0⟩ := of_decide_eq_true hempty
    rw [hzero] at hcommitted
    change rd.snapshot.index ≤ 0 at hcommitted
    omega
  · exact hcommitted

/-- The transactions of a batch keep the database up with the storage. -/
theorem Backed.batch (hb : Backed s T ms snap l) (hv : ValidReady ms rd) :
    ∃ ms' snap' l', (installed ms rd).append rd.entries = some ms' ∧
      ms'.hardState = nextHardState ms.hardState rd ∧
      Backed (replay T s (readyWrites rd)) T ms' snap' l' := by
  have hne := nextHardState_isEmpty hv
  have hunborn (s : Store) : Unborn s T (nextHardState ms.hardState rd) :=
    fun hempty => by rw [hne] at hempty; cases hempty
  have hlower : snap.index ≤ ms.hardState.commit := Nat.le_trans hb.older hb.snapshot
  cases hsnap : rd.snapshot.isEmpty with
  | true =>
    obtain ⟨n, hn, hbase, hentries⟩ := hv.entries hsnap
    have happ := storage_of_entries hsnap hentries hn
    -- The entries follow the same entry in the log of the database.
    have hlen : ms.offset + ms.ents.length ≤ snap.index + l.length := hb.last
    have hshift : snap.index + (ms.offset + n - snap.index) = ms.offset + n := by omega
    have hdisk := hb.disk.saveRaftReady rd.hardState (hshift.symm ▸ hentries) (by omega)
    rw [← replay_readyWrites_of_isEmpty T s hsnap] at hdisk
    have hlast : ms.hardState.commit ≤ ms.offset +
          (if rd.entries = [] then ms.ents else ms.ents.take n ++ rd.entries).length ∧
        ms.offset + (if rd.entries = [] then ms.ents else ms.ents.take n ++ rd.entries).length ≤
          snap.index + (splice l (ms.offset + n - snap.index) rd.entries).length := by
      have hcommit : ms.hardState.commit ≤ ms.offset + ms.ents.length := hb.commit
      rw [length_splice (by omega)]
      split
      · omega
      · rw [List.length_append, List.length_take_of_le hn]
        omega
    exact ⟨_, snap, _, happ, rfl, hdisk, hb.older, Nat.le_trans hb.snapshot (commit_le_next hv),
      next_commit_le hv hlast.1 happ, hlast.2, hunborn _⟩
  | false =>
    obtain ⟨hnew, -⟩ := hv.snapshot hsnap
    have happ := storage_of_snapshot hsnap (Nat.lt_of_le_of_lt hb.snapshot hnew) (hv.following hsnap)
    have hdisk := hb.disk.install rd.hardState (by omega) (hv.following hsnap)
    rw [← replay_readyWrites_of_not_isEmpty T s hsnap] at hdisk
    refine ⟨_, rd.snapshot, _, happ, rfl, hdisk, Nat.le_refl _, snapshot_le_next hv hsnap,
      next_commit_le hv ?_ happ, ?_, hunborn _⟩
    · exact Nat.le_trans (Nat.le_of_lt hnew) (Nat.le_add_right _ _)
    · rw [length_splice (Nat.zero_le _)]
      change rd.snapshot.index + rd.entries.length ≤ _
      omega

/-- A snapshot of the log within what is applied keeps the database up with the storage. -/
theorem Backed.createSnapshot (hb : Backed s T ms snap l) {i : Nat} {cs : ConfState} {snap' : Snapshot}
    (happlied : i ≤ ms.hardState.commit) (hcreate : ms.createSnapshot i cs = .ok snap' ms') :
    Backed s T ms' snap l ∧
      ∃ l', Backed (s.saveRaftSnapshot T snap') T ((ms'.compact i).getD ms') snap' l' := by
  obtain ⟨hnew, hin, rfl, rfl⟩ := MemoryStorage.createSnapshot_eq_ok hcreate
  have hlo : snap.index ≤ snap'.index := Nat.le_trans hb.older (Nat.le_of_lt hnew)
  have hlast := hb.last
  refine ⟨⟨hb.disk, hlo, happlied, hb.commit, hlast, hb.unborn⟩,
    l.drop (snap'.index - snap.index), ?_⟩
  obtain ⟨hhs, hsnap, hidx⟩ :=
    MemoryStorage.compact_getD { ms with snapshot := snap' } snap'.index
  have hdisk := hb.disk.saveRaftSnapshot hlo (by omega)
  refine ⟨hhs.symm ▸ hdisk, ?_, ?_, ?_, ?_, hhs.symm ▸ hb.unborn⟩
  · rw [hsnap]
  · rw [hsnap, hhs]
    exact happlied
  · rw [hhs, hidx]
    exact hb.commit
  · rw [hidx, List.length_drop]
    change ms.lastIndex ≤ _
    omega

/-! ## Runs -/

/-- A replica whose process is up, or the database it has left. -/
inductive Life
  | up (e : Backend)
  | down (s : Store)

/-- A replica of thread `T` handles valid batches and takes snapshots, stops after some of the effects
of a call, and is built anew; `ok` is a condition on the effects of a batch. -/
inductive Life.Step (N : Node) (T : String) (ok : Ready → List Effect → Prop) : Life → Life → Prop
  | ready {env : Env} {e e' : Backend} {rd : Ready} {δ : List Effect}
    (hv : ValidReady e.storage (e.pendingReady.getD rd))
    (hstep : step N env e (.ready rd) = .ok e') (hδ : e'.trace = e.trace ++ δ)
    (hok : ok (e.pendingReady.getD rd) δ) : Step N T ok (.up e) (.up e')
  | snapshot {env : Env} {e e' : Backend} (hstep : step N env e .snapshot = .ok e') :
    Step N T ok (.up e) (.up e')
  | stopReady {env : Env} {e : Backend} {rd : Ready} {α : List Effect}
    (hv : ValidReady e.storage (e.pendingReady.getD rd))
    (hα : e.trace ++ α <+: (final (step N env e (.ready rd))).trace)
    (hok : ok (e.pendingReady.getD rd) α) :
    Step N T ok (.up e) (.down (replay e.thread.id e.store α))
  | stopSnapshot {env : Env} {e : Backend} {α : List Effect}
    (hα : e.trace ++ α <+: (final (step N env e .snapshot)).trace) :
    Step N T ok (.up e) (.down (replay e.thread.id e.store α))
  | start {env : Env} {thread : Thread} {s : Store} {start : NodeStart} {e : Backend}
    (hid : thread.id = T) (hnew : newRaftBackend N env thread s = .ok (start, e)) :
    Step N T ok (.down s) (.up e)

/-- The condition on a batch: when its entries have been saved, so has its snapshot. -/
def Whole (rd : Ready) (δ : List Effect) : Prop :=
  rd.snapshot.isEmpty = false → .write (.saveRaftReady rd.hardState rd.entries) ∈ δ →
    .write (.saveRaftSnapshot rd.snapshot) ∈ δ

/-- What holds of a replica in every state of a run. -/
def Life.Sound (T : String) : Life → Prop
  | .up e => e.thread.id = T ∧ e.appliedIndex ≤ e.storage.hardState.commit ∧
    ∃ snap l, Backed e.store T e.storage snap l
  | .down s => ∃ snap hs l, Loadable s T snap hs l

/-- The batch that is handled, and what it ends in. -/
theorem final_step_ready (N : Node) (env : Env) (e : Backend) (rd : Ready) :
    ∃ p, final (step N env e (.ready rd)) =
      { ended (handleReady N env e (e.pendingReady.getD rd)) with pendingReady := p } := by
  simp only [step, tryReady, processReady]
  rcases handleReady N env e (e.pendingReady.getD rd) with (e' | e') | e'
  · exact ⟨_, rfl⟩
  · exact ⟨e'.pendingReady, rfl⟩
  · exact ⟨_, rfl⟩

theorem Persisted.sameRaft {e e₁ : Backend} {δ : List Effect} (hp : Persisted e rd e₁ δ) :
    SameRaft (replay e.thread.id e.store (readyWrites rd)) e₁.store := by
  rw [hp.logged.store, replay_append]
  exact (sameLog_replay fun a ha => Effect.spares_of_isQuiet (hp.quiet a ha)).sameRaft

/-- A batch that is handled. -/
theorem Life.Sound.ready (h : Life.Sound T (.up e)) (hv : ValidReady e.storage (e.pendingReady.getD rd))
    (hstep : step N env e (.ready rd) = .ok e') {δ : List Effect} (hδ : e'.trace = e.trace ++ δ)
    (hok : Whole (e.pendingReady.getD rd) δ) : Life.Sound T (.up e') := by
  obtain ⟨rfl, happlied, snap, l, hb⟩ := h
  have hfinal : e' = final (step N env e (.ready rd)) := by rw [hstep]; rfl
  obtain ⟨p, hp⟩ := final_step_ready N env e rd
  rw [hfinal, hp]
  rw [hfinal, hp] at hδ
  have hnot : ∀ e₁, handleReady N env e (e.pendingReady.getD rd) ≠ .error (.panic e₁) := by
    intro e₁ hpanic
    simp only [step, tryReady, processReady, hpanic] at hstep
    cases hstep
  set b := e.pendingReady.getD rd
  have htrail := handleReady_trail N env e b
  generalize handleReady N env e b = r at htrail hδ hnot ⊢
  cases htrail with
  | unsaved hfail => exact ⟨rfl, happlied, snap, l, hb⟩
  | @halfSaved e₁ e₂ w hsnap hfail hlog hmem =>
    -- The entries without the snapshot: the condition excludes it.
    have hsame : δ = [.write (.saveRaftReady b.hardState b.entries), .failed w] :=
      List.append_cancel_left (hδ.symm.trans hlog.trace)
    have hmissing := hok hsnap (hsame ▸ List.mem_cons_self)
    rw [hsame] at hmissing
    rcases List.mem_pair.mp hmissing with h | h <;> cases h
  | panicked hlog hquiet hfit => exact absurd rfl (hnot _)
  | @applied e₁ δ₁ hper =>
    obtain ⟨ms', snap', l', happ, hhs, hb'⟩ := hb.batch hv
    obtain rfl : e₁.storage = ms' := Option.some.inj (hper.storage.symm.trans happ)
    obtain ⟨hraft, hstorage, hindex⟩ := applyAll_raft N env e₁ b.committedEntries
    obtain ⟨γ, hall⟩ := applyAll_logged N env e₁ b.committedEntries
    have hne : e₁.storage.hardState.isEmpty = false := hhs ▸ nextHardState_isEmpty hv
    refine ⟨hall.threadId.trans hper.logged.threadId, ?_, snap', l', ?_⟩
    · change (b.committedEntries.foldl (applyEntry N env) e₁).appliedIndex ≤
        (b.committedEntries.foldl (applyEntry N env) e₁).storage.hardState.commit
      rw [hstorage, hhs, hindex]
      cases hlast : b.committedEntries.getLast? with
      | some x => exact hv.committed x (List.mem_of_getLast? hlast)
      | none =>
        change e₁.appliedIndex ≤ _
        rw [hper.appliedIndex]
        split
        · exact Nat.le_trans happlied (commit_le_next hv)
        · rename_i hsnap
          exact snapshot_le_next hv (Bool.eq_false_of_not_eq_true hsnap)
    · change Backed (b.committedEntries.foldl (applyEntry N env) e₁).store e.thread.id
        (b.committedEntries.foldl (applyEntry N env) e₁).storage snap' l'
      rw [hstorage]
      exact (hb'.sameRaft hne hper.sameRaft).sameRaft hne hraft

/-- A process that stops while it handles a batch. -/
theorem Life.Sound.stopReady (h : Life.Sound T (.up e))
    (hv : ValidReady e.storage (e.pendingReady.getD rd))
    (hα : e.trace ++ α <+: (final (step N env e (.ready rd))).trace)
    (hok : Whole (e.pendingReady.getD rd) α) :
    Life.Sound T (.down (replay e.thread.id e.store α)) := by
  obtain ⟨rfl, happlied, snap, l, hb⟩ := h
  obtain ⟨p, hp⟩ := final_step_ready N env e rd
  rw [hp] at hα
  obtain ⟨ms', snap', l', happ, hhs, hb'⟩ := hb.batch hv
  have hne : ms'.hardState.isEmpty = false := hhs ▸ nextHardState_isEmpty hv
  cases handleReady_cut hα with
  | before hsame => exact ⟨_, _, _, hsame.symm ▸ hb.loadable⟩
  | between hsnap hready hmissing => exact absurd (hok hsnap hready) hmissing
  | saved hsame => exact ⟨_, _, _, (hb'.sameRaft hne hsame.sameRaft).loadable⟩
  | @applied e₁ δ k hper hk hsame =>
    have hraft := (applyAll_raft N env e₁ ((e.pendingReady.getD rd).committedEntries.take k)).1
    have hb₁ := (hb'.sameRaft hne hper.sameRaft).sameRaft hne hraft
    exact ⟨_, _, _, (hb₁.sameRaft hne hsame.sameRaft).loadable⟩

theorem Life.Sound.snapshot (h : Life.Sound T (.up e)) (hstep : step N env e .snapshot = .ok e') :
    Life.Sound T (.up e') := by
  obtain ⟨rfl, happlied, snap, l, hb⟩ := h
  obtain ⟨δ, hδ⟩ := snapshot_trail env e
  have hfinal : final (Raft.snapshot env e) = e' := congrArg final hstep
  rw [hfinal] at hδ
  cases hδ with
  | idle he =>
    rw [he]
    exact ⟨rfl, happlied, snap, l, hb⟩
  | @failed s ms w hcreate he =>
    rw [he]
    have hhs : ms.hardState = e.storage.hardState := by
      rw [(MemoryStorage.createSnapshot_eq_ok hcreate).2.2.2]
    refine ⟨rfl, ?_, snap, l, (hb.createSnapshot happlied hcreate).1⟩
    change e.appliedIndex ≤ ms.hardState.commit
    rw [hhs]
    exact happlied
  | @saved s ms hpos hcreate hlog hstorage hindex hself hready =>
    obtain ⟨-, l', hb'⟩ := hb.createSnapshot happlied hcreate
    have hhs : e'.storage.hardState = e.storage.hardState := by
      rw [hstorage, (MemoryStorage.compact_getD ms _).1,
        (MemoryStorage.createSnapshot_eq_ok hcreate).2.2.2]
    refine ⟨hlog.threadId, ?_, s, l', ?_⟩
    · rw [hindex, hhs]
      exact happlied
    · rw [hstorage, hlog.store]
      exact hb'

theorem Life.Sound.stopSnapshot (h : Life.Sound T (.up e))
    (hα : e.trace ++ α <+: (final (step N env e .snapshot)).trace) :
    Life.Sound T (.down (replay e.thread.id e.store α)) := by
  obtain ⟨rfl, happlied, snap, l, hb⟩ := h
  obtain ⟨δ, hδ⟩ := snapshot_trail env e
  change e.trace ++ α <+: (final (Raft.snapshot env e)).trace at hα
  rw [hδ.logged.trace, List.prefix_append_right_inj] at hα
  -- At most one effect: nothing is saved, or the snapshot is.
  have hcases : replay e.thread.id e.store α = e.store ∨
      ∃ s ms, e.storage.createSnapshot e.appliedIndex e.confState = .ok s ms ∧
        replay e.thread.id e.store α = e.store.saveRaftSnapshot e.thread.id s := by
    cases hδ with
    | idle he =>
      rw [List.prefix_nil.mp hα]
      exact .inl rfl
    | failed w hcreate he =>
      rcases List.prefix_cons_iff.mp hα with rfl | ⟨α', rfl, hα'⟩
      · exact .inl rfl
      · rw [List.prefix_nil.mp hα']
        exact .inl rfl
    | saved hpos hcreate hlog hstorage hindex hself hready =>
      rcases List.prefix_cons_iff.mp hα with rfl | ⟨α', rfl, hα'⟩
      · exact .inl rfl
      · rw [List.prefix_nil.mp hα']
        exact .inr ⟨_, _, hcreate, rfl⟩
  rcases hcases with hsame | ⟨s, ms, hcreate, hsaved⟩
  · exact ⟨_, _, _, hsame.symm ▸ hb.loadable⟩
  · obtain ⟨-, l', hb'⟩ := hb.createSnapshot happlied hcreate
    exact ⟨_, _, _, hsaved.symm ▸ hb'.loadable⟩

theorem Life.Sound.start {thread : Thread} {start : NodeStart} (h : Life.Sound thread.id (.down s))
    (hnew : newRaftBackend N env thread s = .ok (start, e)) : Life.Sound thread.id (.up e) := by
  obtain ⟨snap, hs, l, hload⟩ := h
  obtain ⟨hthread, -, hstore, hstorage, -⟩ := newRaftBackend_eq_ok hnew
  have happlied := newRaftBackend_appliedIndex hnew
  rw [hload.loadStorage] at hstorage
  obtain ⟨hhs, hsnap, -, hlast⟩ := loaded_eq snap hs l
  have hdisk : Disk (s.releasePendingClaims thread.id) thread.id snap hs l :=
    hload.disk.congr rfl rfl rfl
  rw [hdisk.loadRaftState] at happlied
  refine ⟨congrArg Thread.id hthread, ?_, snap, l, ?_⟩
  · rw [← Option.some.inj hstorage, hhs, happlied]
    exact hload.lower
  · rw [hstore, ← Option.some.inj hstorage]
    refine ⟨hhs.symm ▸ hdisk, ?_, ?_, ?_, ?_, hhs.symm ▸ hload.unborn⟩
    · rw [hsnap]
    · rw [hsnap, hhs]
      exact hload.lower
    · rw [hhs, hlast]
      exact hload.upper
    · rw [hlast]

theorem Life.Sound.step {c c' : Life} (h : c.Sound T) (hstep : Life.Step N T Whole c c') :
    c'.Sound T := by
  cases hstep with
  | ready hv hstep hδ hok => exact h.ready hv hstep hδ hok
  | snapshot hstep => exact h.snapshot hstep
  | stopReady hv hα hok => exact h.stopReady hv hα hok
  | stopSnapshot hα => exact h.stopSnapshot hα
  | start hid hnew =>
    subst hid
    exact h.start hnew

/-- **Wherever the process stops, the database can be restarted from**, in every run from a blank
database in which no process stops between saving the entries and saving the snapshot of a batch: the
commit index lies between the snapshot and the end of the log, the log has no gaps, and the Raft
library does not panic. -/
theorem restart_in_range {s₀ : Store} (hblank : Blank s₀ T)
    (hrun : Relation.ReflTransGen (Life.Step N T Whole) (.down s₀) (.down s)) :
    ∃ snap hs l, s.loadRaftState T = (snap, hs, l) ∧ snap.index ≤ hs.commit ∧
      hs.commit ≤ snap.index + l.length ∧ Contiguous Entry.index snap.index l ∧
      ∀ N' env thread, thread.id = T → newRaftBackend N' env thread s ≠ .error .panic := by
  have hsound : Life.Sound T (.down s) := by
    suffices hall : ∀ c, Relation.ReflTransGen (Life.Step N T Whole) (.down s₀) c → c.Sound T from
      hall _ hrun
    intro c hc
    induction hc with
    | refl => exact ⟨_, _, _, hblank.loadable⟩
    | tail _ hstep ih => exact ih.step hstep
  obtain ⟨snap, hs, l, hload⟩ := hsound
  refine ⟨snap, hs, l, hload.disk.loadRaftState, hload.lower, hload.upper, hload.disk.contiguous, ?_⟩
  rintro N' env thread rfl
  exact newRaftBackend_ne_panic hload.loadStorage hload.restartable

/-! ## Three replicas -/

namespace Trio

/-- A replica that has fallen behind receives a snapshot of the leader. -/
def catchUp : Ready where
  hardState := ⟨2, 0, 5⟩
  entries := []
  snapshot := ⟨5, 2, ⟨[1, 2, 3]⟩⟩
  committedEntries := []
  messages := []

theorem validReady_catchUp : ValidReady (after (first 0) boot).storage catchUp where
  snapshot _ := by decide +kernel
  following _ := trivial
  entries h := by cases h
  commit _ := ⟨by decide +kernel, fun ms' h => by cases h; decide +kernel⟩
  hardState _ := rfl
  committed _ h := absurd h List.not_mem_nil

theorem step_boot : step (node 0) calm (first 0) (.ready boot) = .ok (after (first 0) boot) := rfl

/-- The effects of `catchUp` up to its first and its second transaction. -/
def halfway : List Effect := [.write (.saveRaftReady catchUp.hardState catchUp.entries)]

def caughtUp : List Effect := halfway ++ [.write (.saveRaftSnapshot catchUp.snapshot)]

theorem caughtUp_isPrefix : (after (first 0) boot).trace ++ caughtUp <+:
    (final (step (node 0) calm (after (first 0) boot) (.ready catchUp))).trace := by
  decide +kernel

/-- What a first replica has run before it receives the snapshot. -/
theorem run_boot {ok : Ready → List Effect → Prop} (hok : ∀ δ, ok boot δ) :
    Relation.ReflTransGen (Life.Step (node 0) thread.id ok) (.down .empty)
      (.up (after (first 0) boot)) := by
  refine .tail (.single (.start rfl (newRaftBackend_first 0))) ?_
  exact .ready validReady_boot step_boot (δ := (after (first 0) boot).trace.drop 1) rfl (hok _)

/-- A process that stops after the first transaction of a batch with a snapshot leaves a commit index
beyond the log, and its replica does not start again. -/
theorem restart_out_of_range : ∃ s,
    Relation.ReflTransGen (Life.Step (node 0) thread.id fun _ _ => True) (.down .empty) (.down s) ∧
    s.loadRaftState thread.id = (.zero, ⟨2, 0, 5⟩, boot.entries) ∧
    newRaftBackend (node 0) calm thread s = .error .panic := by
  refine ⟨replay thread.id (after (first 0) boot).store halfway, ?_, by decide +kernel, rfl⟩
  refine .tail (run_boot fun _ => trivial) ?_
  have hα : (after (first 0) boot).trace ++ halfway <+:
      (final (step (node 0) calm (after (first 0) boot) (.ready catchUp))).trace :=
    (List.prefix_append_right_inj _).mpr (List.prefix_append _ _) |>.trans caughtUp_isPrefix
  exact .stopReady validReady_catchUp hα trivial

theorem restart_in_range_caughtUp : ∃ snap hs l,
    (replay thread.id (after (first 0) boot).store caughtUp).loadRaftState thread.id = (snap, hs, l) ∧
    snap.index ≤ hs.commit ∧ hs.commit ≤ snap.index + l.length ∧
    Contiguous Entry.index snap.index l ∧
    ∀ N' env thread', thread'.id = thread.id → newRaftBackend N' env thread'
      (replay thread.id (after (first 0) boot).store caughtUp) ≠ .error .panic := by
  refine restart_in_range (N := node 0) blank (.tail (run_boot fun _ h => by cases h) ?_)
  refine .stopReady validReady_catchUp caughtUp_isPrefix fun _ _ => ?_
  exact List.mem_append_right _ List.mem_cons_self

end Trio

end MoltMesh.Raft

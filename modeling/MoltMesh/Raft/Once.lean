import Mathlib.Logic.Relation
import MoltMesh.Raft.Advance
import MoltMesh.Raft.Claims
import MoltMesh.Raft.Reload

/-!
# Once

A replica is handed the committed log, stops anywhere, is built anew and is handed the
log again from its last snapshot on.  What it has applied since then it applies a second
time, and what it has proposed and not seen committed it proposes a second time.  If
neither is the case whenever it is built anew, each entry of the log has one block, and
an entry that is enqueued once is at most once in the chain (`exactly_once`).
-/

namespace MoltMesh.Raft

open MoltMesh.Lib Pb Raftpb

variable {N : Node} {env : Env} {e e' : Backend} {T : String} {s s' : Store} {log : List Entry}
  {δ : List Effect} {k m : Nat} {a : Effect} {past : List Effect}

/-! ## Logs and chains -/

/-- The thread entries of the blocks a log makes, block by block. -/
theorem map_entries_chainOf (N : Node) (T : String) (log : List Entry) :
    (chainOf N T log).map ThreadBlock.entries =
      log.filterMap fun entry => (blockOf N entry).map Prod.fst := by
  induction log using List.reverseRecOn with
  | nil => rfl
  | append_singleton log entry ih =>
    rw [chainOf_concat, List.map_append, ih, List.filterMap_append, nextBlock]
    cases hb : blockOf N entry with
    | none => simp [hb]
    | some x => simp [hb, fillBlock]

theorem length_chainOf (N : Node) (T : String) (log : List Entry) :
    (chainOf N T log).length = (log.filterMap (blockOf N)).length := by
  have h := congrArg List.length (map_entries_chainOf N T log)
  rw [List.length_map, ← List.map_filterMap, List.length_map] at h
  exact h

theorem chainOf_append_of_none {more : List Entry} (h : more.filterMap (blockOf N) = []) :
    chainOf N T (log ++ more) = chainOf N T log := by
  induction more using List.reverseRecOn with
  | nil => rw [List.append_nil]
  | append_singleton more entry ih =>
    rw [List.filterMap_append, List.append_eq_nil_iff] at h
    have hnone : blockOf N entry = none := by
      have hentry := h.2
      rw [List.filterMap_eq_nil_iff] at hentry
      exact hentry entry (List.mem_singleton_self _)
    rw [← List.append_assoc, chainOf_concat, ih h.1, nextBlock, hnone]
    exact List.append_nil _

/-- A store with no more blocks than a part of the log makes holds the image of that part. -/
theorem Image.shrink (h : Image N T (log.take k) s) (hm : m ≤ k)
    (hrows : (s.blockRows T).length ≤ ((log.take m).filterMap (blockOf N)).length) :
    Image N T (log.take m) s := by
  obtain ⟨bs, hc, himg⟩ := h
  have hsplit : log.take k = log.take m ++ (log.take k).drop m := by
    conv_lhs => rw [← List.take_append_drop m (log.take k)]
    rw [List.take_take, Nat.min_eq_left hm]
  have hlen := congrArg List.length himg
  rw [List.length_map, length_chainOf, hsplit, List.filterMap_append, List.length_append] at hlen
  rw [hc.rows, List.length_map] at hrows
  have hnone : ((log.take k).drop m).filterMap (blockOf N) = [] :=
    List.length_eq_zero_iff.mp (by omega)
  refine ⟨bs, hc, ?_⟩
  rw [himg, hsplit, chainOf_append_of_none hnone]

/-- The proposal of an entry, if it is the replica's own. -/
def ownProposal (N : Node) (entry : Entry) : Option RaftProposal :=
  match entry.data with
  | .proposal p => if ownerOf N p = N.id.did then some p else none
  | _ => none

theorem entriesOf_of_ownProposal {entry : Entry} {p : RaftProposal} (h : ownProposal N entry = some p) :
    entriesOf entry = p.entries := by
  unfold ownProposal at h
  split at h
  · rename_i q hq
    obtain ⟨-, h⟩ := Option.ite_none_right_eq_some.mp h
    rw [entriesOf, hq, Option.some.inj h]
  · cases h

/-- A thread entry that is only in proposals of the replica. -/
theorem count_flatMap_entriesOf {t : ThreadEntry}
    (h : ∀ entry ∈ log, ownProposal N entry = none → t ∉ entriesOf entry) :
    (log.flatMap entriesOf).count t =
      ((log.filterMap (ownProposal N)).flatMap RaftProposal.entries).count t := by
  induction log with
  | nil => rfl
  | cons entry log ih =>
    have hrest := ih fun x hx => h x (List.mem_cons_of_mem entry hx)
    rw [List.flatMap_cons, List.count_append, hrest]
    cases hp : ownProposal N entry with
    | none =>
      rw [List.filterMap_cons_none hp, List.count_eq_zero_of_not_mem (h entry List.mem_cons_self hp),
        Nat.zero_add]
    | some p =>
      rw [List.filterMap_cons_some hp, List.flatMap_cons, List.count_append,
        entriesOf_of_ownProposal hp]

theorem flatMap_entries_chainOf (N : Node) (T : String) (log : List Entry) :
    (chainOf N T log).flatMap ThreadBlock.entries = log.flatMap entriesOf := by
  rw [List.flatMap_def, map_entries_chainOf]
  induction log with
  | nil => rfl
  | cons entry log ih =>
    rw [List.flatMap_cons, ← ih]
    cases hb : blockOf N entry with
    | none =>
      rw [List.filterMap_cons_none (by rw [hb]; rfl), entriesOf_of_none hb]
      rfl
    | some x =>
      rw [List.filterMap_cons_some (b := x.1) (by rw [hb]; rfl), List.flatten_cons,
        entriesOf_of_some (l := x.1) hb]

/-! ## Snapshots -/

/-- The index of the snapshot in the database. -/
def snapshotIndex (T : String) (s : Store) : Nat := (s.loadRaftState T).1.index

/-- An effect that saves no snapshot beyond an index. -/
def Effect.Below (m : Nat) : Effect → Prop
  | .write (.saveRaftSnapshot snap) => snap.index ≤ m
  | _ => True

theorem Effect.below_of_isQuiet (ha : a.isQuiet = true) (m : Nat) : a.Below m := by
  cases a with
  | write w => cases w <;> trivial
  | _ => trivial

theorem Effect.Below.mono {m' : Nat} (h : a.Below m) (hm : m ≤ m') : a.Below m' := by
  cases a with
  | write w =>
    cases w with
    | saveRaftSnapshot snap => exact Nat.le_trans h hm
    | _ => trivial
  | _ => trivial

theorem snapshotIndex_congr (h : s'.raftSnapshots = s.raftSnapshots) :
    snapshotIndex T s' = snapshotIndex T s := by
  unfold snapshotIndex Store.loadRaftState
  rw [h]

theorem snapshotIndex_replay (hs : snapshotIndex T s ≤ m) (hδ : ∀ a ∈ δ, a.Below m) :
    snapshotIndex T (replay T s δ) ≤ m := by
  induction δ generalizing s with
  | nil => exact hs
  | cons a δ ih =>
    refine ih ?_ fun b hb => hδ b (List.mem_cons_of_mem a hb)
    have ha := hδ a List.mem_cons_self
    cases a with
    | write w =>
      by_cases hw : ∃ snap, w = .saveRaftSnapshot snap
      · obtain ⟨snap, rfl⟩ := hw
        have hindex : snapshotIndex T (s.saveRaftSnapshot T snap) = snap.index := by
          unfold snapshotIndex Store.loadRaftState Store.saveRaftSnapshot
          rw [show (s.raftSnapshots.insertOrReplace (T, snap)).lookup T = some (T, snap) from
            Table.lookup_insertOrReplace_self s.raftSnapshots (T, snap)]
          rfl
        change snapshotIndex T (s.saveRaftSnapshot T snap) ≤ m
        rw [hindex]
        exact ha
      · have hsame : (w.apply T s).raftSnapshots = s.raftSnapshots := by
          cases w with
          | saveRaftSnapshot snap => exact absurd ⟨snap, rfl⟩ hw
          | appendBlock ids b =>
            rcases apply_appendBlock T s ids b with hsame | ⟨blocks, -, heq⟩
            · exact congrArg Store.raftSnapshots hsame
            · exact (congrArg Store.raftSnapshots heq).trans
                (sameRaft_ackPending { s with blocks } ids).raftSnapshots
          | releasePendingClaimIDs ids =>
            change (ids.foldl Store.deleteClaim s).raftSnapshots = s.raftSnapshots
            clear hs ha hw hδ ih
            induction ids generalizing s with
            | nil => rfl
            | cons id ids ih => exact (ih (s := s.deleteClaim id)).trans rfl
          | _ => rfl
        change snapshotIndex T (w.apply T s) ≤ m
        rw [snapshotIndex_congr hsame]
        exact hs
    | _ => exact hs

/-- What a call that handles no batch does to snapshots. -/
theorem StepTrail.below {ev : Event} (h : StepTrail N env e ev e') (hready : ∀ rd, ev ≠ .ready rd) :
    e'.appliedIndex = e.appliedIndex ∧ ∃ δ, Logged e e' δ ∧ ∀ a ∈ δ, a.Below e.appliedIndex := by
  cases h with
  | ready hr he => exact absurd rfl (hready _)
  | block hδ =>
    have hlog := hδ.logged
    cases hδ with
    | held hread hheld he => exact ⟨by rw [he], _, hlog, fun _ ha => absurd ha List.not_mem_nil⟩
    | failed w he =>
      refine ⟨by rw [he]; rfl, _, hlog, fun a ha => ?_⟩
      rw [List.mem_singleton.mp ha]
      trivial
    | saved hfree hw hmem hδ he =>
      refine ⟨by rw [he]; exact hδ.appliedIndex.trans hmem.appliedIndex, _, hlog, fun a ha => ?_⟩
      rcases List.mem_append.mp ha with ha | ha
      · rcases List.mem_cons.mp ha with rfl | ha
        · trivial
        · exact Effect.below_of_isQuiet (hδ.quiet a ha) _
      · rw [List.mem_singleton.mp ha]
        trivial
  | propose h₁ hmem₁ hlog hδ hmem hev =>
    refine ⟨hmem.appliedIndex.trans h₁.appliedIndex, _, h₁.toLogged.trans hlog, fun a ha => ?_⟩
    rcases List.mem_append.mp ha with ha | ha
    · exact Effect.below_of_isQuiet (h₁.quiet a ha) _
    · cases hδ with
      | idle => exact absurd ha List.not_mem_nil
      | failed w =>
        rw [List.mem_singleton.mp ha]
        trivial
      | released hclaim hrel =>
        rcases List.mem_pair.mp ha with rfl | rfl
        · trivial
        · rcases hrel with rfl | rfl <;> trivial
      | proposed hclaim => rcases List.mem_pair.mp ha with rfl | rfl <;> trivial
  | snapshot hδ =>
    have hlog := hδ.logged
    cases hδ with
    | idle he => exact ⟨by rw [he], _, hlog, fun _ ha => absurd ha List.not_mem_nil⟩
    | failed w hcreate he =>
      refine ⟨by rw [he]; rfl, _, hlog, fun a ha => ?_⟩
      rw [List.mem_singleton.mp ha]
      trivial
    | saved hpos hcreate hlog' hstorage happlied hself hpending =>
      refine ⟨happlied, _, hlog, fun a ha => ?_⟩
      rw [List.mem_singleton.mp ha]
      exact (MemoryStorage.createSnapshot_eq_ok hcreate).2.2.1.le
  | side hδ hev hpending =>
    exact ⟨hδ.appliedIndex, _, hδ.toLogged, fun a ha => Effect.below_of_isQuiet (hδ.quiet a ha) _⟩
  | enqueue hmem hlog =>
    refine ⟨hmem.appliedIndex, _, hlog, fun a ha => ?_⟩
    rw [List.mem_singleton.mp ha]
    trivial

/-- A batch without a snapshot is applied, or nothing of it has been saved. -/
theorem step_ready_of_isEmpty {rd : Ready} (hsnap : (e.pendingReady.getD rd).snapshot.isEmpty = true)
    (h : step N env e (.ready rd) = .ok e') :
    (∃ e₁ δ, Persisted e (e.pendingReady.getD rd) e₁ δ ∧ e' =
      { (e.pendingReady.getD rd).committedEntries.foldl (applyEntry N env) e₁ with
        pendingReady := none }) ∨
    ∃ w, e' = { note e (.failed w) with pendingReady := some (e.pendingReady.getD rd) } := by
  have htrail := handleReady_trail N env e (e.pendingReady.getD rd)
  simp only [step, tryReady, processReady] at h
  generalize handleReady N env e (e.pendingReady.getD rd) = r at htrail h
  cases htrail with
  | applied hp => exact .inl ⟨_, _, hp, (Except.ok.inj h).symm⟩
  | unsaved hfail => exact .inr ⟨_, (Except.ok.inj h).symm⟩
  | halfSaved hsnap' hfail hlog hmem =>
    rw [hsnap] at hsnap'
    cases hsnap'
  | panicked hlog hquiet hfit => cases h

/-! ## Courses -/

/-- A replica over its lives: its process or the database it has left, how many entries of the log it
has been handed since it was built, and all it has done. -/
structure Course where
  life : Life
  applied : Nat
  past : List Effect

/-- The database. -/
def Life.store : Life → Store
  | .up e => e.store
  | .down s => s

namespace Course

/-- Where the entries of a batch begin. -/
def base (c : Course) (rd : Ready) : Nat := if rd.snapshot.isEmpty then c.applied else rd.snapshot.index

/-- What the Raft node assures of a new batch: its entries come next in the log, and a proposal of the
replica is in the log no more often than it has been made. -/
structure Handed (N : Node) (log : List Entry) (c : Course) (rd : Ready) : Prop where
  next : rd.committedEntries <+: log.drop (c.base rd)
  made : ((log.take (c.base rd + rd.committedEntries.length)).filterMap (ownProposal N)).Subperm
    (proposals c.past)

/-- What may happen to a replica of thread `T`.  A Raft node that is started again hands over the log
from the snapshot on.  `ok` is a condition on calls, and `clean` on the database a replica is built
from. -/
inductive Step (N : Node) (T : String) (log : List Entry) (ok : Env → Backend → Event → Prop)
    (clean : Store → List Effect → Prop) (c : Course) : Course → Prop
  | ready {env : Env} {rd : Ready} {e e' : Backend} {δ : List Effect} (hlife : c.life = .up e)
    (hok : ok env e (.ready rd)) (hnext : e.pendingReady = none → c.Handed N log rd)
    (hstep : step N env e (.ready rd) = .ok e') (hδ : e'.trace = e.trace ++ δ) :
    Step N T log ok clean c ⟨.up e', if e'.pendingReady = none then
      c.base (e.pendingReady.getD rd) + (e.pendingReady.getD rd).committedEntries.length
      else c.applied, c.past ++ δ⟩
  | call {env : Env} {ev : Event} {e e' : Backend} {δ : List Effect} (hlife : c.life = .up e)
    (hok : ok env e ev) (hready : ∀ rd, ev ≠ .ready rd) (hstep : step N env e ev = .ok e')
    (hδ : e'.trace = e.trace ++ δ) : Step N T log ok clean c ⟨.up e', c.applied, c.past ++ δ⟩
  /-- The process stops somewhere in a call. -/
  | stop {env : Env} {ev : Event} {e : Backend} {α : List Effect} (hlife : c.life = .up e)
    (hok : ok env e ev) (hnext : ∀ rd, ev = .ready rd → e.pendingReady = none → c.Handed N log rd)
    (hα : e.trace ++ α <+: (final (step N env e ev)).trace) :
    Step N T log ok clean c ⟨.down (replay T e.store α), c.applied, c.past ++ α⟩
  | start {env : Env} {thread : Thread} {s : Store} {how : NodeStart} {e : Backend}
    (hlife : c.life = .down s) (hid : thread.id = T) (hclean : clean s c.past)
    (hnew : newRaftBackend N env thread s = .ok (how, e)) :
    Step N T log ok clean c ⟨.up e, snapshotIndex T s, c.past ++ e.trace⟩
  /-- The process stops, or gives up, while the replica is built. -/
  | giveUp {s : Store} (hlife : c.life = .down s) :
    Step N T log ok clean c
      ⟨.down (s.releasePendingClaims T), c.applied, c.past ++ [.write .releasePendingClaims]⟩
  /-- An entry is enqueued while the replica is not there. -/
  | enqueue {s : Store} {t : ThreadEntry} {now : Int} (hlife : c.life = .down s) :
    Step N T log ok clean c
      ⟨.down (s.enqueueEntry T t now), c.applied, c.past ++ [.write (.enqueueEntry t now)]⟩

/-- The condition on the database a replica is built from: it holds no block of an entry beyond its
snapshot, and nothing that is pending has been proposed. -/
def Clean (N : Node) (T : String) (log : List Entry) (s : Store) (past : List Effect) : Prop :=
  (s.blockRows T).length ≤ ((log.take (snapshotIndex T s)).filterMap (blockOf N)).length ∧
    ∀ r ∈ s.pending.rows, r.threadId = T → r.id ∉ proposedIDs past

/-- A database without a trace of the thread; ids count up to the sequence. -/
structure Untouched (T : String) (s : Store) : Prop where
  blockRows : s.blockRows T = []
  raftSnapshots : s.raftSnapshots.lookup T = none
  pending : ∀ r ∈ s.pending.rows, r.threadId ≠ T
  id_le : ∀ r ∈ s.pending.rows, r.id ≤ s.pendingSeq

/-! ## What every step keeps -/

/-- A replica that runs has the image of the entries it has been handed. -/
structure Running (N : Node) (T : String) (log : List Entry) (c : Course) (e : Backend) : Prop where
  follows : Voter.Follows N T log ⟨e, c.applied⟩
  claimed : Claimed T c.past e.store
  appliedIndex : e.appliedIndex ≤ c.applied
  snapshot : snapshotIndex T e.store ≤ c.applied
  made : ((log.take c.applied).filterMap (ownProposal N)).Subperm (proposals c.past)
  pending : ∀ rd ∈ e.pendingReady,
    ((log.take (c.applied + rd.committedEntries.length)).filterMap (ownProposal N)).Subperm
      (proposals c.past)

/-- A database holds the image of some of the log, not less than its snapshot. -/
structure Left (N : Node) (T : String) (log : List Entry) (past : List Effect) (s : Store) (k : Nat) :
    Prop where
  image : Image N T (log.take k) s
  snapshot : snapshotIndex T s ≤ k
  made : ((log.take k).filterMap (ownProposal N)).Subperm (proposals past)

/-- What holds of a replica in every state of a run. -/
structure Sound (N : Node) (T : String) (log : List Entry) (c : Course) : Prop where
  booked : ∃ reg, Booked T c.past reg c.life.store
  up : ∀ e, c.life = .up e → Running N T log c e
  down : ∀ s, c.life = .down s → ∃ k, Left N T log c.past s k

variable {c c' : Course}

theorem subperm_grow {l : List RaftProposal} (h : l.Subperm (proposals past)) :
    l.Subperm (proposals (past ++ δ)) := by
  rw [proposals_append]
  exact h.trans (List.sublist_append_left _ _).subperm

/-- What has been made for a part of the log has been made for less. -/
theorem subperm_take
    (h : ((log.take m).filterMap (ownProposal N)).Subperm (proposals past)) (hk : k ≤ m) :
    ((log.take k).filterMap (ownProposal N)).Subperm (proposals past) := by
  refine List.Subperm.trans (List.Sublist.subperm ?_) h
  have hsub : (log.take k).Sublist (log.take m) := (List.take_prefix_take_left hk).sublist
  exact hsub.filterMap _

/-- The last entry of a batch has the index up to which the log has been handed over. -/
theorem appliedIndex_le {entries : List Entry} (hlog : Contiguous Entry.index 0 log)
    (hnext : entries <+: log.drop k) (hi : e.appliedIndex ≤ k) :
    ((entries.getLast?).map Entry.index).getD e.appliedIndex ≤ k + entries.length := by
  cases hlast : entries.getLast? with
  | none => exact Nat.le_trans hi (Nat.le_add_right _ _)
  | some last =>
    have hmem : last ∈ entries := List.mem_of_getLast? hlast
    have hk : k ≤ log.length := by
      by_contra hlt
      rw [List.drop_eq_nil_of_le (by omega), List.prefix_nil] at hnext
      rw [hnext] at hmem
      exact absurd hmem List.not_mem_nil
    have hcont : Contiguous Entry.index k entries := by
      rw [List.prefix_iff_eq_take.mp hnext]
      have hdrop := hlog.drop hk
      rw [Nat.zero_add] at hdrop
      exact hdrop.take _
    exact (hcont.mem hmem).2

section Calls

variable {rd : Ready} {ev : Event} (hc : Sound N T log c) (hlife : c.life = .up e)

include hc hlife

/-- The batch that is handled comes next in the log. -/
theorem Sound.batch (hok : Voter.Steady env e (.ready rd))
    (hnext : e.pendingReady = none → c.Handed N log rd) :
    (e.pendingReady.getD rd).committedEntries <+: log.drop c.applied ∧
      ((log.take (c.applied + (e.pendingReady.getD rd).committedEntries.length)).filterMap
        (ownProposal N)).Subperm (proposals c.past) := by
  have hrun := hc.up e hlife
  have hsnap := hok.2
  cases hp : e.pendingReady with
  | none =>
    rw [hp] at hsnap
    have hbase : c.base rd = c.applied := if_pos hsnap
    obtain ⟨hnext, hmade⟩ := hnext hp
    rw [hbase] at hnext hmade
    exact ⟨hnext, hmade⟩
  | some rd' => exact ⟨(hrun.follows.pending rd' hp).2, hrun.pending rd' hp⟩

/-- The effects of a call keep the books. -/
theorem Sound.effects (env : Env) (ev : Event) :
    ∃ δ, Logged e (final (Raft.step N env e ev)) δ ∧ Fair T c.past e.store δ := by
  have hrun := hc.up e hlife
  have hid : e.thread.id = T := hrun.follows.threadId
  have hclaimed : Claimed e.thread.id c.past e.store := hid ▸ hrun.claimed
  have hfair := step_fair N env e ev hclaimed
  rw [hid] at hfair
  exact hfair

/-- The books and claims after the effects of a call, all of them or the first few. -/
theorem Sound.kept {γ : List Effect} (hγ : Fair T c.past e.store γ)
    (hpast : past = c.past ++ γ) : (∃ reg, Booked T past reg (replay T e.store γ)) ∧
      Claimed T past (replay T e.store γ) := by
  obtain ⟨reg, hbooked⟩ := hc.booked
  rw [hlife] at hbooked
  rw [hpast]
  exact ⟨hbooked.replay hγ, (hc.up e hlife).claimed.replay hbooked hγ⟩

/-- How far a replica is after a batch. -/
theorem Sound.progress (hlog : Contiguous Entry.index 0 log) (hok : Voter.Steady env e (.ready rd))
    (hnext : e.pendingReady = none → c.Handed N log rd)
    (hstep : Raft.step N env e (.ready rd) = .ok e') (hn : k = if e'.pendingReady = none then
      c.applied + (e.pendingReady.getD rd).committedEntries.length else c.applied) :
    e'.appliedIndex ≤ k ∧ snapshotIndex T e'.store ≤ k ∧
      ((log.take k).filterMap (ownProposal N)).Subperm (proposals c.past) ∧
      ∀ rd' ∈ e'.pendingReady, ((log.take (k + rd'.committedEntries.length)).filterMap
        (ownProposal N)).Subperm (proposals c.past) := by
  have hrun := hc.up e hlife
  obtain ⟨hbatch, hmade⟩ := hc.batch hlife hok hnext
  rcases step_ready_of_isEmpty hok.2 hstep with ⟨e₁, δ₁, hp, rfl⟩ | ⟨w, rfl⟩
  · obtain ⟨hraft, -, hindex⟩ := applyAll_raft N env e₁ (e.pendingReady.getD rd).committedEntries
    have hsnap := hp.sameRaft.raftSnapshots
    rw [replay_readyWrites_of_isEmpty _ _ hok.2] at hsnap
    obtain rfl := hn.trans (if_pos rfl)
    refine ⟨?_, ?_, hmade, fun rd' h => absurd h (Option.not_mem_none rd')⟩
    · change Backend.appliedIndex (List.foldl (applyEntry N env) e₁ _) ≤ _
      rw [hindex, hp.appliedIndex, if_pos hok.2]
      exact appliedIndex_le hlog hbatch hrun.appliedIndex
    · rw [snapshotIndex_congr (hraft.raftSnapshots.trans hsnap)]
      exact Nat.le_trans hrun.snapshot (Nat.le_add_right _ _)
  · obtain rfl := hn.trans (if_neg (Option.some_ne_none _))
    refine ⟨hrun.appliedIndex, hrun.snapshot, hrun.made, fun rd' h => ?_⟩
    obtain rfl := Option.some.inj h
    exact hmade

theorem Sound.ready (hlog : Contiguous Entry.index 0 log) (hok : Voter.Steady env e (.ready rd))
    (hnext : e.pendingReady = none → c.Handed N log rd)
    (hstep : Raft.step N env e (.ready rd) = .ok e') (hδ : e'.trace = e.trace ++ δ) :
    Sound N T log ⟨.up e', if e'.pendingReady = none then
      c.base (e.pendingReady.getD rd) + (e.pendingReady.getD rd).committedEntries.length
      else c.applied, c.past ++ δ⟩ := by
  have hrun := hc.up e hlife
  obtain ⟨γ, hlogged, hfair⟩ := hc.effects hlife env (.ready rd)
  rw [hstep] at hlogged
  obtain rfl : δ = γ := List.append_cancel_left (hδ.symm.trans hlogged.trace)
  have hid : e.thread.id = T := hrun.follows.threadId
  have hstore : e'.store = replay T e.store δ := hid ▸ hlogged.store
  obtain ⟨hbooked, hclaimed⟩ := hc.kept hlife hfair rfl
  rw [← hstore] at hbooked hclaimed
  refine ⟨hbooked, fun e₁ he₁ => ?_, nofun⟩
  obtain rfl := Life.up.inj he₁
  have hfollows := hrun.follows.ready hok (fun h => (hnext h).next) hstep
  have hbase : c.base (e.pendingReady.getD rd) = c.applied := if_pos hok.2
  obtain ⟨hindex, hsnap, hmade, hagain⟩ := hc.progress hlife hlog hok hnext hstep
    (congrArg (fun n => if e'.pendingReady = none then
      n + (e.pendingReady.getD rd).committedEntries.length else c.applied) hbase)
  exact ⟨hfollows, hclaimed, hindex, hsnap, subperm_grow hmade, fun rd' h => subperm_grow (hagain rd' h)⟩

theorem Sound.call (hok : Voter.Steady env e ev) (hready : ∀ rd, ev ≠ .ready rd)
    (hstep : Raft.step N env e ev = .ok e') (hδ : e'.trace = e.trace ++ δ) :
    Sound N T log ⟨.up e', c.applied, c.past ++ δ⟩ := by
  have hrun := hc.up e hlife
  obtain ⟨γ, hlogged, hfair⟩ := hc.effects hlife env ev
  have htrail := step_trail N env e ev
  rw [hstep] at hlogged htrail
  change StepTrail N env e ev e' at htrail
  obtain rfl : δ = γ := List.append_cancel_left (hδ.symm.trans hlogged.trace)
  have hid : e.thread.id = T := hrun.follows.threadId
  have hstore : e'.store = replay T e.store δ := hid ▸ hlogged.store
  obtain ⟨hbooked, hclaimed⟩ := hc.kept hlife hfair rfl
  rw [← hstore] at hbooked hclaimed
  refine ⟨hbooked, fun e₁ he₁ => ?_, nofun⟩
  obtain rfl := Life.up.inj he₁
  obtain ⟨hindex, γ, hlogged', hbelow⟩ := htrail.below hready
  obtain rfl : δ = γ := List.append_cancel_left (hδ.symm.trans hlogged'.trace)
  have hpending := pendingReady_of_step hready hstep
  refine ⟨hrun.follows.call hok hready hstep, hclaimed, ?_, ?_, subperm_grow hrun.made, ?_⟩
  · rw [hindex]
    exact hrun.appliedIndex
  · rw [hstore]
    refine snapshotIndex_replay hrun.snapshot fun a ha => ?_
    exact (hbelow a ha).mono hrun.appliedIndex
  · rw [hpending]
    exact fun rd hrd => subperm_grow (hrun.pending rd hrd)

/-- What a process that stops in the middle of a batch leaves. -/
theorem Sound.cut {α : List Effect} (hok : Voter.Steady env e (.ready rd))
    (hnext : e.pendingReady = none → c.Handed N log rd)
    (hα : e.trace ++ α <+: (final (Raft.step N env e (.ready rd))).trace) :
    ∃ k, Left N T log (c.past ++ α) (replay T e.store α) k := by
  have hrun := hc.up e hlife
  have hid : e.thread.id = T := hrun.follows.threadId
  obtain ⟨hbatch, hmade⟩ := hc.batch hlife hok hnext
  obtain ⟨p, hp⟩ := final_step_ready N env e rd
  rw [hp] at hα
  have hcut := handleReady_cut (N := N) hα
  rw [← hid]
  cases hcut with
  | before h =>
    rw [h]
    exact ⟨c.applied, hid ▸ hrun.follows.image, hid ▸ hrun.snapshot, subperm_grow hrun.made⟩
  | between hsnap hready hmissing =>
    rw [hok.2] at hsnap
    cases hsnap
  | saved h =>
    refine ⟨c.applied, ?_, ?_, subperm_grow hrun.made⟩
    · rw [hid]
      refine hrun.follows.image.congr ?_
      rw [← hid, h.blocks]
      exact blocks_replay fun a ha => sparesBlocks_readyWrites (δ := [])
        (fun _ h => absurd h List.not_mem_nil) a (List.append_nil (readyWrites _) ▸ ha)
    · have hsnap := h.raftSnapshots
      rw [replay_readyWrites_of_isEmpty _ _ hok.2] at hsnap
      rw [snapshotIndex_congr hsnap, hid]
      exact hrun.snapshot
  | @applied e₁ δ₁ k hper hk h =>
    refine ⟨c.applied + k, ?_, ?_, subperm_grow (subperm_take hmade (Nat.add_le_add_left hk _))⟩
    · have hid₁ : e₁.thread.id = e.thread.id := hper.logged.threadId
      have hbefore : Image N e₁.thread.id (log.take c.applied) e₁.store := by
        rw [hid₁, hid]
        exact hrun.follows.image.congr hper.blocks
      have hafter := hbefore.batch ((e.pendingReady.getD rd).committedEntries.take k) hok.1
      have htake : log.take (c.applied + k) =
          log.take c.applied ++ (e.pendingReady.getD rd).committedEntries.take k := by
        rw [List.take_add, List.prefix_iff_eq_take.mp hbatch, List.take_take, Nat.min_eq_left hk]
      rw [← htake, hid₁] at hafter
      exact hafter.congr h.blocks
    · have hraft := (applyAll_raft N env e₁ ((e.pendingReady.getD rd).committedEntries.take k)).1
      have hsnap := hper.sameRaft.raftSnapshots
      rw [replay_readyWrites_of_isEmpty _ _ hok.2] at hsnap
      rw [snapshotIndex_congr (h.raftSnapshots.trans (hraft.raftSnapshots.trans hsnap)), hid]
      exact Nat.le_trans hrun.snapshot (Nat.le_add_right _ _)

theorem Sound.stop {α : List Effect} (hok : Voter.Steady env e ev)
    (hnext : ∀ rd, ev = .ready rd → e.pendingReady = none → c.Handed N log rd)
    (hα : e.trace ++ α <+: (final (Raft.step N env e ev)).trace) :
    Sound N T log ⟨.down (replay T e.store α), c.applied, c.past ++ α⟩ := by
  have hrun := hc.up e hlife
  obtain ⟨γ, hlogged, hfair⟩ := hc.effects hlife env ev
  have hprefix : α <+: γ := by rwa [hlogged.trace, List.prefix_append_right_inj] at hα
  obtain ⟨β, rfl⟩ := hprefix
  refine ⟨(hc.kept hlife (fair_append.mp hfair).1 rfl).1, nofun, fun s hs => ?_⟩
  obtain rfl := Life.down.inj hs
  by_cases hready : ∃ rd, ev = .ready rd
  · obtain ⟨rd, rfl⟩ := hready
    exact hc.cut hlife hok (hnext rd rfl) hα
  · have hready := not_exists.mp hready
    have htrail := step_trail N env e ev
    obtain ⟨-, γ, hlogged', hbelow⟩ := htrail.below hready
    obtain rfl : α ++ β = γ := List.append_cancel_left (hlogged.trace.symm.trans hlogged'.trace)
    refine ⟨c.applied, ?_, ?_, subperm_grow hrun.made⟩
    · refine hrun.follows.image.congr (blocks_replay fun a ha => ?_)
      by_cases hblock : ∃ b, ev = .inbound (.committedBlock b)
      · -- A block that is held already leaves no effects.
        obtain ⟨b, rfl⟩ := hblock
        have hsame : applyCommittedBlock N env e b = e := if_pos hok
        have htrace : (applyCommittedBlock N env e b).trace = e.trace ++ (α ++ β) := hlogged.trace
        rw [hsame] at htrace
        have hnil := List.append_right_eq_self.mp htrace.symm
        rw [(List.append_eq_nil_iff.mp hnil).1] at ha
        exact absurd ha List.not_mem_nil
      · obtain ⟨γ, hlogged'', hspares⟩ := htrail.sparing hready (not_exists.mp hblock)
        obtain rfl : α ++ β = γ := List.append_cancel_left (hlogged.trace.symm.trans hlogged''.trace)
        exact hspares a (List.mem_append_left _ ha)
    · refine snapshotIndex_replay hrun.snapshot fun a ha => ?_
      exact (hbelow a (List.mem_append_left _ ha)).mono hrun.appliedIndex

end Calls

theorem Sound.start {thread : Thread} {how : NodeStart} (hc : Sound N T log c) (hlife : c.life = .down s)
    (hid : thread.id = T) (hclean : Clean N T log s c.past)
    (hnew : newRaftBackend N env thread s = .ok (how, e)) :
    Sound N T log ⟨.up e, snapshotIndex T s, c.past ++ e.trace⟩ := by
  obtain ⟨reg, hbooked⟩ := hc.booked
  obtain ⟨k, himage, hsnap, hmade⟩ := hc.down s hlife
  have hshrunk := himage.shrink hsnap hclean.1
  have hindex := newRaftBackend_appliedIndex hnew
  obtain ⟨hthread, hpending, hstore, -, htrace⟩ := newRaftBackend_eq_ok hnew
  rw [hlife] at hbooked
  subst hid
  have hsame : e.store.pending = s.pending := by rw [hstore]; rfl
  refine ⟨⟨reg, ?_⟩, fun e₁ he₁ => ?_, nofun⟩
  · change Booked thread.id (c.past ++ e.trace) reg e.store
    rw [hstore, htrace]
    exact hbooked.apply_of_rows (a := .write .releasePendingClaims) rfl rfl (List.Subset.refl _)
      (Int.le_refl _)
  · obtain rfl := Life.up.inj he₁
    refine ⟨Voter.follows_of_new hshrunk hnew, ?_, ?_, ?_, subperm_grow (subperm_take hmade hsnap), ?_⟩
    · intro r hr ht hprop
      rw [hsame] at hr
      rw [htrace, proposedIDs_append] at hprop
      exact absurd (List.append_nil (proposedIDs c.past) ▸ hprop) (hclean.2 r hr ht)
    · rw [hindex]
      exact Nat.le_refl _
    · rw [hstore]
      exact Nat.le_refl _
    · rw [hpending]
      exact fun rd h => absurd h (Option.not_mem_none rd)

/-- The database is changed while the replica is not there. -/
theorem Sound.between (hc : Sound N T log c) (hlife : c.life = .down s)
    (hbooked : ∀ reg, Booked T c.past reg s → ∃ reg', Booked T (c.past ++ [a]) reg' s')
    (hblocks : s'.blocks = s.blocks) (hsnap : s'.raftSnapshots = s.raftSnapshots) :
    Sound N T log ⟨.down s', c.applied, c.past ++ [a]⟩ := by
  obtain ⟨reg, hreg⟩ := hc.booked
  obtain ⟨k, hleft⟩ := hc.down s hlife
  rw [hlife] at hreg
  refine ⟨hbooked reg hreg, nofun, fun s₁ hs₁ => ?_⟩
  obtain rfl := Life.down.inj hs₁
  refine ⟨k, hleft.image.congr hblocks, ?_, subperm_grow hleft.made⟩
  rw [snapshotIndex_congr hsnap]
  exact hleft.snapshot

theorem Sound.step (hlog : Contiguous Entry.index 0 log) (hc : Sound N T log c)
    (h : Step N T log Voter.Steady (Clean N T log) c c') : Sound N T log c' := by
  cases h with
  | ready hlife hok hnext hstep hδ => exact hc.ready hlife hlog hok hnext hstep hδ
  | call hlife hok hready hstep hδ => exact hc.call hlife hok hready hstep hδ
  | stop hlife hok hnext hα => exact hc.stop hlife hok hnext hα
  | start hlife hid hclean hnew => exact hc.start hlife hid hclean hnew
  | giveUp hlife =>
    refine hc.between hlife (fun reg hreg => ⟨reg, ?_⟩) rfl rfl
    exact hreg.apply_of_rows (a := .write .releasePendingClaims) rfl rfl (List.Subset.refl _)
      (Int.le_refl _)
  | enqueue hlife => exact hc.between hlife (fun reg hreg => ⟨_, hreg.enqueue _ _⟩) rfl rfl

theorem sound_of_untouched (N : Node) (log : List Entry) (h : Untouched T s) :
    Sound N T log ⟨.down s, 0, []⟩ := by
  refine ⟨⟨[], rfl, h.id_le, nofun, fun r hr ht => absurd ht (h.pending r hr), nofun, nofun,
    List.nodup_nil⟩, nofun, fun s₁ hs₁ => ?_⟩
  obtain rfl := Life.down.inj hs₁
  refine ⟨0, image_nil h.blockRows, ?_, List.nil_subperm⟩
  unfold snapshotIndex Store.loadRaftState
  rw [h.raftSnapshots]
  exact Nat.le_refl _

/-- **Each committed entry has one block**, and an entry is in the chain no more often than it has been
enqueued, in every run in which batches and inbound blocks are steady and a replica is built only from
a database that is clean.  A replica that runs has the blocks of all the entries it has been handed;
one that has stopped has those of a part of the log. -/
theorem exactly_once (hlog : Contiguous Entry.index 0 log) (h₀ : Untouched T s)
    (hrun : Relation.ReflTransGen (Step N T log Voter.Steady (Clean N T log)) ⟨.down s, 0, []⟩ c) :
    ∃ k bs, (∀ e, c.life = .up e → k = c.applied) ∧ c.life.store.Chain T bs ∧
      bs.map ThreadBlock.entries = (log.take k).filterMap (fun entry => (blockOf N entry).map Prod.fst) ∧
      ∀ t, (∀ entry ∈ log, ownProposal N entry = none → t ∉ entriesOf entry) →
        (bs.flatMap ThreadBlock.entries).count t ≤ (enqueued c.past).count t := by
  have hsound : Sound N T log c := by
    induction hrun with
    | refl => exact sound_of_untouched N log h₀
    | tail _ hstep ih => exact ih.step hlog hstep
  obtain ⟨reg, hbooked⟩ := hsound.booked
  obtain ⟨k, hk, hleft⟩ : ∃ k, (∀ e, c.life = .up e → k = c.applied) ∧
      Left N T log c.past c.life.store k := by
    cases hlife : c.life with
    | up e =>
      have hrunning := hsound.up e hlife
      exact ⟨c.applied, fun _ _ => rfl, hrunning.follows.image, hrunning.snapshot, hrunning.made⟩
    | down s =>
      obtain ⟨k, hleft⟩ := hsound.down s hlife
      exact ⟨k, nofun, hleft⟩
  obtain ⟨bs, hchain, himage⟩ := hleft.image
  have hentries : bs.map ThreadBlock.entries = (bs.map undated).map ThreadBlock.entries := by
    rw [List.map_map]
    rfl
  refine ⟨k, bs, hk, hchain, ?_, fun t ht => ?_⟩
  · rw [hentries, himage, map_entries_chainOf]
  · calc (bs.flatMap ThreadBlock.entries).count t
        = ((log.take k).flatMap entriesOf).count t := by
          rw [List.flatMap_def, hentries, himage, ← List.flatMap_def, flatMap_entries_chainOf]
      _ = (((log.take k).filterMap (ownProposal N)).flatMap RaftProposal.entries).count t :=
          count_flatMap_entriesOf fun entry hentry => ht entry (List.mem_of_mem_take hentry)
      _ ≤ ((proposals c.past).flatMap RaftProposal.entries).count t := by
          obtain ⟨l, hperm, hsub⟩ := hleft.made
          rw [← (hperm.flatMap fun _ _ => .refl _).count_eq]
          exact (hsub.flatMap _).count_le t
      _ ≤ (enqueued c.past).count t := hbooked.entries_subperm.count_le t

/-! ## Playing a run -/

/-- The replica takes a call. -/
def after (N : Node) (env : Env) (c : Course) (ev : Event) : Course :=
  match c.life with
  | .down _ => c
  | .up e =>
    let e' := final (Raft.step N env e ev)
    let applied := match ev with
      | .ready rd => if e'.pendingReady = none then
        c.base (e.pendingReady.getD rd) + (e.pendingReady.getD rd).committedEntries.length
        else c.applied
      | _ => c.applied
    ⟨.up e', applied, c.past ++ e'.trace.drop e.trace.length⟩

/-- The process stops between two calls. -/
def halted (c : Course) : Course := ⟨.down c.life.store, c.applied, c.past⟩

/-- The replica is built. -/
def built (N : Node) (env : Env) (thread : Thread) (c : Course) : Course :=
  match newRaftBackend N env thread c.life.store with
  | .error _ => c
  | .ok (_, e) => ⟨.up e, snapshotIndex thread.id c.life.store, c.past ++ e.trace⟩

section Play

variable {ok : Env → Backend → Event → Prop} {clean : Store → List Effect → Prop}

theorem step_after {ev : Event} (hlife : c.life = .up e) (hok : ok env e ev)
    (hnext : ∀ rd, ev = .ready rd → e.pendingReady = none → c.Handed N log rd)
    (hstep : (Raft.step N env e ev).isOk = true) : Step N T log ok clean c (c.after N env ev) := by
  obtain ⟨δ, hδ⟩ := (step_trail N env e ev).logged
  have hdrop : (final (Raft.step N env e ev)).trace =
      e.trace ++ (final (Raft.step N env e ev)).trace.drop e.trace.length := by
    rw [hδ.trace, List.drop_left]
  rw [after, hlife]
  by_cases hready : ∃ rd, ev = .ready rd
  · obtain ⟨rd, rfl⟩ := hready
    exact .ready hlife hok (hnext rd rfl) (step_eq_ok hstep) hdrop
  · have hready := not_exists.mp hready
    have hcall : Step N T log ok clean c
        ⟨.up (final (Raft.step N env e ev)), c.applied,
          c.past ++ (final (Raft.step N env e ev)).trace.drop e.trace.length⟩ :=
      .call hlife hok hready (step_eq_ok hstep) hdrop
    cases ev with
    | ready rd => exact absurd rfl (hready rd)
    | _ => exact hcall

theorem step_halted (env : Env) (hlife : c.life = .up e) (hok : ok env e (.inbound .other)) :
    Step N T log ok clean c c.halted := by
  have hα : e.trace ++ [] <+: (final (Raft.step N env e (.inbound .other))).trace := by
    rw [List.append_nil]
    exact List.prefix_rfl
  have hstop : Step N T log ok clean c ⟨.down (replay T e.store []), c.applied, c.past ++ []⟩ :=
    .stop hlife hok nofun hα
  rw [List.append_nil] at hstop
  rw [halted, hlife]
  exact hstop

theorem step_built {thread : Thread} {how : NodeStart} (hlife : c.life = .down s)
    (hid : thread.id = T) (hclean : clean s c.past)
    (hnew : newRaftBackend N env thread s = .ok (how, e)) :
    Step N T log ok clean c (c.built N env thread) := by
  subst hid
  have hstart : Step N thread.id log ok clean c ⟨.up e, snapshotIndex thread.id s, c.past ++ e.trace⟩ :=
    .start hlife rfl hclean hnew
  rw [built, hlife, Life.store, hnew]
  exact hstart

end Play

end Course

namespace Trio

open Course

/-- Nothing has happened. -/
def unborn : Course := ⟨.down .empty, 0, []⟩

theorem untouched_empty : Untouched "t" .empty := ⟨rfl, rfl, nofun, nofun⟩

/-- The first replica is built, an entry is enqueued and proposed. -/
def underWay : Course :=
  ((unborn.built (node 0) calm thread).after (node 0) calm (.enqueue post)).after (node 0) calm .tick

/-- The entry is committed. -/
def committed : Course := underWay.after (node 0) calm (.ready (batch Trio.log))

theorem contiguous_log : Contiguous Entry.index 0 Trio.log := ⟨rfl, trivial⟩

theorem handed_log {c : Course} {rd : Ready} (hrd : rd.committedEntries = Trio.log)
    (hbase : c.base rd = 0) (hmade : ⟨[1], [post], "d1"⟩ ∈ proposals c.past) :
    c.Handed (node 0) Trio.log rd := by
  constructor
  · rw [hrd, hbase]
    exact List.prefix_rfl
  · rw [hrd, hbase]
    exact List.singleton_subperm_iff.mpr hmade

section Runs

variable {ok : Env → Backend → Event → Prop} {clean : Store → List Effect → Prop}

theorem run_underWay (hok : ∀ e ev, (∀ rd, ev ≠ .ready rd) → (∀ b, ev ≠ .inbound (.committedBlock b)) →
      ok calm e ev) (hclean : clean .empty []) :
    Relation.ReflTransGen (Course.Step (node 0) "t" Trio.log ok clean) unborn underWay := by
  have hbuilt : Course.Step (node 0) "t" Trio.log ok clean unborn (unborn.built (node 0) calm thread) :=
    step_built rfl rfl hclean (newRaftBackend_first 0)
  have henqueued : Course.Step (node 0) "t" Trio.log ok clean (unborn.built (node 0) calm thread)
      ((unborn.built (node 0) calm thread).after (node 0) calm (.enqueue post)) :=
    step_after rfl (hok _ _ nofun nofun) nofun (by decide +kernel)
  refine .tail (.tail (.single hbuilt) henqueued) ?_
  exact step_after rfl (hok _ _ nofun nofun) nofun (by decide +kernel)

end Runs

/-- Nothing is in the way of these steps. -/
theorem steady_calm (e : Backend) (ev : Event) (hready : ∀ rd, ev ≠ .ready rd)
    (hblock : ∀ b, ev ≠ .inbound (.committedBlock b)) : Voter.Steady calm e ev := by
  cases ev with
  | ready rd => exact absurd rfl (hready rd)
  | inbound msg =>
    cases msg with
    | committedBlock b => exact absurd rfl (hblock b)
    | _ => trivial
  | _ => trivial

/-- The Raft node hands over the log again. -/
def again : Ready := ⟨⟨0, 0, 0⟩, [], .zero, Trio.log, []⟩

/-- The process stops and the replica is built anew. -/
def reborn : Course := committed.halted.built (node 0) calm thread

theorem newRaftBackend_committed : newRaftBackend (node 0) calm thread committed.life.store =
    .ok (.restart, (match reborn.life with | .up e => e | .down _ => first 0)) := rfl

/-- The log is handed over again. -/
def doubled : Course := reborn.after (node 0) calm (.ready again)

/-- An entry that is enqueued once and committed once is in two blocks. -/
theorem applied_twice : Untouched "t" .empty ∧ Contiguous Entry.index 0 Trio.log ∧
    Relation.ReflTransGen (Course.Step (node 0) "t" Trio.log (fun _ _ _ => True) fun _ _ => True) unborn
      doubled ∧
    (Trio.log.filterMap (blockOf (node 0))).length = 1 ∧ enqueued doubled.past = [post] ∧
    (doubled.life.store.blockRows "t").map (fun r => r.block.entries) = [[post], [post]] := by
  refine ⟨untouched_empty, contiguous_log, ?_, by decide +kernel, by decide +kernel, by decide +kernel⟩
  have hcommitted : Course.Step (node 0) "t" Trio.log (fun _ _ _ => True) (fun _ _ => True) underWay
      committed :=
    step_after rfl trivial (fun rd hrd _ => by cases hrd; exact handed_log rfl rfl (by decide +kernel))
      (by decide +kernel)
  have hhalted : Course.Step (node 0) "t" Trio.log (fun _ _ _ => True) (fun _ _ => True) committed
      committed.halted := step_halted calm rfl trivial
  have hreborn : Course.Step (node 0) "t" Trio.log (fun _ _ _ => True) (fun _ _ => True) committed.halted
      reborn := step_built rfl rfl trivial newRaftBackend_committed
  refine .tail (.tail (.tail (.tail (run_underWay (fun _ _ _ _ => trivial) trivial) hcommitted) hhalted)
    hreborn) ?_
  exact step_after rfl trivial
    (fun rd hrd _ => by cases hrd; exact handed_log rfl rfl (by decide +kernel)) (by decide +kernel)

/-- The replica takes a snapshot before it is built anew. -/
def secured : Course := (committed.after (node 0) calm .snapshot).halted.built (node 0) calm thread

theorem newRaftBackend_secured :
    newRaftBackend (node 0) calm thread (committed.after (node 0) calm .snapshot).life.store =
      .ok (.restart, (match secured.life with | .up e => e | .down _ => first 0)) := rfl

theorem exactly_once_secured : ∃ bs, secured.life.store.Chain "t" bs ∧
    bs.map ThreadBlock.entries = [[post]] ∧ (bs.flatMap ThreadBlock.entries).count post ≤ 1 := by
  have hcommitted : Course.Step (node 0) "t" Trio.log Voter.Steady (Clean (node 0) "t" Trio.log) underWay
      committed :=
    step_after rfl ⟨fun _ _ _ => rfl, by decide +kernel⟩
      (fun rd hrd _ => by cases hrd; exact handed_log rfl rfl (by decide +kernel)) (by decide +kernel)
  have hsnapshot : Course.Step (node 0) "t" Trio.log Voter.Steady (Clean (node 0) "t" Trio.log) committed
      (committed.after (node 0) calm .snapshot) := step_after rfl trivial nofun (by decide +kernel)
  have hhalted : Course.Step (node 0) "t" Trio.log Voter.Steady (Clean (node 0) "t" Trio.log)
      (committed.after (node 0) calm .snapshot) (committed.after (node 0) calm .snapshot).halted :=
    step_halted calm rfl trivial
  have hsecured : Course.Step (node 0) "t" Trio.log Voter.Steady (Clean (node 0) "t" Trio.log)
      (committed.after (node 0) calm .snapshot).halted secured :=
    step_built rfl rfl ⟨by decide +kernel, by decide +kernel⟩ newRaftBackend_secured
  obtain ⟨k, bs, hk, hchain, hentries, hcount⟩ := exactly_once contiguous_log untouched_empty
    (.tail (.tail (.tail (.tail (run_underWay steady_calm ⟨by decide +kernel, nofun⟩) hcommitted)
      hsnapshot) hhalted) hsecured)
  obtain rfl : k = 1 := hk _ rfl
  refine ⟨bs, hchain, hentries, (hcount post ?_).trans (by decide +kernel)⟩
  decide +kernel

end Trio

end MoltMesh.Raft

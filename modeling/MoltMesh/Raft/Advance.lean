import Mathlib.Logic.Relation
import MoltMesh.Raft.Doings
import MoltMesh.Raft.Image

/-!
# Advancing along the committed log

The Raft node hands a replica the committed log piece by piece.  A batch that could
not be saved is kept and tried again, so a failure before the entries are applied
costs nothing.  A failure of the transaction that stores a block is only logged, and
the entry is passed over: the chain is the image of what has been handed over as
long as that transaction does not fail (`advance_skips_nothing`).
-/

namespace MoltMesh.Raft

open MoltMesh.Lib Pb Raftpb

/-- A voter, and how many entries of the log have been handed to it. -/
structure Voter where
  e : Backend
  applied : Nat

namespace Voter

variable {N : Node} {log : List Entry} {T : String} {v v' : Voter}

/-- Where the entries of a batch begin: after those handed over before, or after the snapshot that
comes with them. -/
def base (v : Voter) (rd : Ready) : Nat :=
  if rd.snapshot.isEmpty then v.applied else rd.snapshot.index

/-- What may happen to a replica.  When it asks for a batch and none is to be tried again, it gets
the entries that come next; `ok` is a condition on the environment and the event. -/
inductive Step (N : Node) (log : List Entry) (ok : Env → Backend → Event → Prop) (v : Voter) :
    Voter → Prop
  | ready {env : Env} {rd : Ready} {e' : Backend} (hok : ok env v.e (.ready rd))
    (hnext : v.e.pendingReady = none → rd.committedEntries <+: log.drop (v.base rd))
    (hstep : step N env v.e (.ready rd) = .ok e') :
    Step N log ok v ⟨e', if e'.pendingReady = none then
      v.base (v.e.pendingReady.getD rd) + (v.e.pendingReady.getD rd).committedEntries.length
      else v.applied⟩
  | call {env : Env} {ev : Event} {e' : Backend} (hok : ok env v.e ev)
    (hready : ∀ rd, ev ≠ .ready rd) (hstep : step N env v.e ev = .ok e') :
    Step N log ok v ⟨e', v.applied⟩

/-- The condition on a step: the transaction that stores a block does not fail, no snapshot is
installed, and a block that comes in is seen to be held already. -/
def Steady (env : Env) (e : Backend) : Event → Prop
  | .ready rd => (∀ k ids b, env.fails k (.appendBlock ids b) = false) ∧
    (e.pendingReady.getD rd).snapshot.isEmpty = true
  | .inbound (.committedBlock b) =>
    env.readFails = false ∧ (e.store.getBlock e.thread.id b.height).isSome = true
  | _ => True

/-- A replica holds the image of the entries that have been handed to it, and a batch that is to be
tried again is what comes next. -/
structure Follows (N : Node) (T : String) (log : List Entry) (v : Voter) : Prop where
  threadId : v.e.thread.id = T
  image : Image N T (log.take v.applied) v.e.store
  pending : ∀ rd ∈ v.e.pendingReady,
    rd.snapshot.isEmpty = true ∧ rd.committedEntries <+: log.drop v.applied

theorem Follows.ready {env : Env} {rd : Ready} {e' : Backend} (hv : Follows N T log v)
    (hok : Steady env v.e (.ready rd))
    (hnext : v.e.pendingReady = none → rd.committedEntries <+: log.drop (v.base rd))
    (hstep : step N env v.e (.ready rd) = .ok e') :
    Follows N T log ⟨e', if e'.pendingReady = none then
      v.base (v.e.pendingReady.getD rd) + (v.e.pendingReady.getD rd).committedEntries.length
      else v.applied⟩ := by
  -- The batch is what comes next, also when it is tried again.
  have hbase : v.base (v.e.pendingReady.getD rd) = v.applied := if_pos hok.2
  have hbatch : (v.e.pendingReady.getD rd).committedEntries <+: log.drop v.applied := by
    cases hp : v.e.pendingReady with
    | none =>
      rw [hp] at hbase
      exact hbase ▸ hnext hp
    | some rd' => exact (hv.pending rd' hp).2
  rw [hbase]
  rcases step_ready_eq_ok hstep with ⟨e₁, δ, hp, rfl⟩ | ⟨-, hagain, hblocks, hid⟩
  · have hid : e₁.thread.id = T := hp.logged.threadId.trans hv.threadId
    obtain ⟨δ', hall⟩ := applyAll_logged N env e₁ (v.e.pendingReady.getD rd).committedEntries
    refine ⟨hall.threadId.trans hid, ?_, fun rd' h => absurd h (Option.not_mem_none rd')⟩
    have hlog : log.take (v.applied + (v.e.pendingReady.getD rd).committedEntries.length) =
        log.take v.applied ++ (v.e.pendingReady.getD rd).committedEntries := by
      rw [List.take_add, ← List.prefix_iff_eq_take.mp hbatch]
    have hbefore : Image N e₁.thread.id (log.take v.applied) e₁.store :=
      hid ▸ hv.image.congr hp.blocks
    have himage := hbefore.batch (v.e.pendingReady.getD rd).committedEntries hok.1
    rw [if_pos rfl, hlog, ← hid]
    exact himage
  · have hne : ¬e'.pendingReady = none := by
      rw [hagain]
      exact Option.some_ne_none _
    rw [if_neg hne]
    refine ⟨hid.trans hv.threadId, hv.image.congr hblocks, fun rd' h => ?_⟩
    obtain rfl := Option.some.inj (hagain.symm.trans h)
    exact ⟨hok.2, hbatch⟩

theorem Follows.call {env : Env} {ev : Event} {e' : Backend} (hv : Follows N T log v)
    (hok : Steady env v.e ev) (hready : ∀ rd, ev ≠ .ready rd) (hstep : step N env v.e ev = .ok e') :
    Follows N T log ⟨e', v.applied⟩ := by
  by_cases hblock : ∃ b, ev = .inbound (.committedBlock b)
  · obtain ⟨b, rfl⟩ := hblock
    have hsame : applyCommittedBlock N env v.e b = v.e := if_pos hok
    obtain rfl : applyCommittedBlock N env v.e b = e' := Except.ok.inj hstep
    rw [hsame]
    exact hv
  · have hblock := not_exists.mp hblock
    have htrail := step_trail N env v.e ev
    rw [hstep] at htrail
    obtain ⟨hblocks, hid⟩ := htrail.blocks hready hblock
    refine ⟨hid.trans hv.threadId, hv.image.congr hblocks, ?_⟩
    change ∀ rd ∈ e'.pendingReady, _
    rw [pendingReady_of_step hready hstep]
    exact hv.pending

theorem Follows.step (hv : Follows N T log v) (h : Step N log Steady v v') :
    Follows N T log v' := by
  cases h with
  | ready hok hnext hstep => exact hv.ready hok hnext hstep
  | call hok hready hstep => exact hv.call hok hready hstep

theorem Follows.run (hv : Follows N T log v) (hrun : Relation.ReflTransGen (Step N log Steady) v v') :
    Follows N T log v' := by
  induction hrun with
  | refl => exact hv
  | tail _ hstep ih => exact ih.step hstep

/-- A new backend follows the log from where the database stands. -/
theorem follows_of_new {thread : Thread} {env : Env} {s : Store} {start : NodeStart} {e : Backend}
    {k : Nat} (himage : Image N thread.id (log.take k) s)
    (hnew : newRaftBackend N env thread s = .ok (start, e)) : Follows N thread.id log ⟨e, k⟩ := by
  obtain ⟨hthread, hpending, hstore, -, -⟩ := newRaftBackend_eq_ok hnew
  refine ⟨congrArg Thread.id hthread, himage.congr ?_, fun rd hrd => ?_⟩
  · exact (congrArg Store.blocks hstore).trans rfl
  · change rd ∈ e.pendingReady at hrd
    rw [hpending] at hrd
    exact absurd hrd (Option.not_mem_none rd)

/-- **No entry is passed over.**  From a database that holds the image of the entries up to the one
the replica is handed first, the chain is always the image of the entries handed over, and each
proposal among them has its block. -/
theorem advance_skips_nothing {thread : Thread} {env : Env} {s : Store} {start : NodeStart}
    {e : Backend} {k : Nat} (himage : Image N thread.id (log.take k) s)
    (hnew : newRaftBackend N env thread s = .ok (start, e))
    (hrun : Relation.ReflTransGen (Step N log Steady) ⟨e, k⟩ v) :
    ∃ bs, v.e.store.Chain thread.id bs ∧
      bs.map undated = chainOf N thread.id (log.take v.applied) ∧
      ∀ entry ∈ log.take v.applied, ∀ p, entry.data = .proposal p → ∃ b ∈ bs, b.entries = p.entries := by
  obtain ⟨bs, hc, himg⟩ := ((follows_of_new himage hnew).run hrun).image
  refine ⟨bs, hc, himg, fun entry hentry p hp => ?_⟩
  obtain ⟨b, hb, hentries⟩ := exists_mem_chainOf (T := thread.id) hentry
    (show blockOf N entry = some (p.entries, _, _) by rw [blockOf, hp])
  rw [← himg] at hb
  obtain ⟨c, hmem, rfl⟩ := List.mem_map.mp hb
  exact ⟨c, hmem, hentries⟩

end Voter

namespace Trio

/-- A step during which blocks cannot be stored. -/
def appendFails : Env := { calm with fails := fun _ w => w matches .appendBlock _ _ }

/-- The entry is passed over although it has no block. -/
theorem advance_skips :
    Relation.ReflTransGen (Voter.Step (node 0) log fun _ _ _ => True) ⟨first 0, 0⟩
        ⟨final (step (node 0) appendFails (first 0) (.ready (batch log))), 1⟩ ∧
      (final (step (node 0) appendFails (first 0) (.ready (batch log)))).pendingReady = none ∧
      (log.filterMap (blockOf (node 0))).length = 1 ∧
      (final (step (node 0) appendFails (first 0) (.ready (batch log)))).store.blockRows "t" = [] := by
  have hpending : (final (step (node 0) appendFails (first 0) (.ready (batch log)))).pendingReady =
      none := by decide +kernel
  refine ⟨.single ?_, hpending, by decide +kernel, by decide +kernel⟩
  have hstep := @Voter.Step.ready (node 0) log (fun _ _ _ => True) ⟨first 0, 0⟩ appendFails (batch log) _
    trivial (fun _ => List.prefix_rfl) (step_eq_ok (by decide +kernel))
  rw [if_pos hpending] at hstep
  exact hstep

/-- A step during which a batch cannot be saved. -/
def saveFails : Env := { calm with fails := fun _ w => w matches .saveRaftReady _ _ }

/-- The replica that is to try the batch again. -/
def retrying : Backend := final (step (node 0) saveFails (first 0) (.ready (batch log)))

/-- A batch that cannot be saved at first and is tried again. -/
theorem advance_skips_nothing_retry :
    ∃ bs, (final (step (node 0) calm retrying (.ready (batch [])))).store.Chain "t" bs ∧
      ∃ b ∈ bs, b.entries = [post] := by
  have hretry : retrying.pendingReady = some (batch log) := by decide +kernel
  have hdone : (final (step (node 0) calm retrying (.ready (batch [])))).pendingReady = none := by
    decide +kernel
  have h₁ := @Voter.Step.ready (node 0) log Voter.Steady ⟨first 0, 0⟩ saveFails (batch log) retrying
    ⟨fun _ _ _ => rfl, rfl⟩ (fun _ => List.prefix_rfl) (step_eq_ok (by decide +kernel))
  rw [if_neg (by rw [hretry]; exact Option.some_ne_none _)] at h₁
  have h₂ := @Voter.Step.ready (node 0) log Voter.Steady ⟨retrying, 0⟩ calm (batch []) _
    ⟨fun _ _ _ => rfl, by decide +kernel⟩ (fun _ => List.nil_prefix) (step_eq_ok (by decide +kernel))
  rw [if_pos hdone, show retrying.pendingReady = some (batch log) from hretry] at h₂
  obtain ⟨bs, hc, -, hall⟩ := Voter.advance_skips_nothing (k := 0) (image_nil rfl)
    (newRaftBackend_first 0) (.tail (.single h₁) h₂)
  exact ⟨bs, hc, hall _ (List.mem_singleton_self _) _ rfl⟩

end Trio

end MoltMesh.Raft

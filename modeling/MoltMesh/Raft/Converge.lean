import Mathlib.Logic.Relation
import MoltMesh.Raft.Advance

/-!
# Convergence of the voters

Voters that are handed the same committed log hold the same chain, if a block that
another voter has broadcast is only handed to a voter that holds a block of that
height already.  Otherwise the block is stored beside the log, and the entry it was
made from makes a second block.
-/

namespace MoltMesh.Raft

open MoltMesh.Lib Pb Raftpb

variable {env : Env} {e' : Backend}

/-! ## The content of a chain -/

/-- A normal entry that has data is one that `proposePending` has made. -/
def isProposed (entry : Entry) : Bool :=
  match entry.data with
  | .proposal p => p.ownerDID ≠ ""
  | .entries _ => false
  | .malformed => false
  | _ => true

/-- What an entry of a log says of its block. -/
def contentOf (entry : Entry) : Option (List ThreadEntry × String × Int32) :=
  match entry.data with
  | .proposal p => some (p.entries, p.ownerDID, Int32.ofNat entry.term)
  | _ => none

/-- What a proposed entry puts into its block does not depend on who applies it. -/
theorem blockOf_of_isProposed {entry : Entry} (h : isProposed entry = true) (N : Node) :
    (blockOf N entry).map (fun x => (x.1, x.2.2)) = (contentOf entry).map fun x => (x.1, x.2.1) := by
  rcases entry with ⟨term, index, data⟩
  cases data with
  | proposal p =>
    have howner : ownerOf N p = p.ownerDID := if_neg (of_decide_eq_true h)
    rw [blockOf, contentOf]
    dsimp only [Option.map_some]
    rw [howner]
  | entries l => cases h
  | malformed => cases h
  | empty => rfl
  | confChange cc => rfl
  | confChangeV2 ccs context => rfl

theorem nextBlock_of_isProposed {entry : Entry} (h : isProposed entry = true) (N : Node) (T : String)
    (bs : List ThreadBlock) (now : Int) : nextBlock N T bs entry now =
      (contentOf entry).map fun x => fillBlock T entry.term x.1 x.2.1 now (bs.length + 1)
        (blockLinks.tip "" bs) := by
  have hmap := congrArg (Option.map fun x : List ThreadEntry × String =>
    fillBlock T entry.term x.1 x.2 now (bs.length + 1) (blockLinks.tip "" bs))
    (blockOf_of_isProposed h N)
  rw [Option.map_map, Option.map_map] at hmap
  exact hmap

/-- The chain of a log does not depend on who applies it. -/
theorem chainOf_eq {log : List Entry} (h : ∀ entry ∈ log, isProposed entry = true) (N N' : Node)
    (T : String) : chainOf N T log = chainOf N' T log := by
  induction log using List.reverseRecOn with
  | nil => rfl
  | append_singleton log entry ih =>
    have hlast := h entry (List.mem_append_right _ (List.mem_singleton_self _))
    rw [chainOf_concat, chainOf_concat, ih fun x hx => h x (List.mem_append_left _ hx),
      nextBlock_of_isProposed hlast, nextBlock_of_isProposed hlast]

/-- The blocks of a chain are those of the log's entries, in their order. -/
theorem map_content_chainOf {log : List Entry} (h : ∀ entry ∈ log, isProposed entry = true)
    (N : Node) (T : String) : (chainOf N T log).map (fun b => (b.entries, b.proposerDid, b.round)) =
      log.filterMap contentOf := by
  induction log using List.reverseRecOn with
  | nil => rfl
  | append_singleton log entry ih =>
    have hlast := h entry (List.mem_append_right _ (List.mem_singleton_self _))
    rw [chainOf_concat, List.map_append, ih fun x hx => h x (List.mem_append_left _ hx),
      List.filterMap_append, nextBlock_of_isProposed hlast]
    congr 1
    rcases entry with ⟨term, index, data⟩
    cases data <;> rfl

/-! ## Voters -/

/-- The voters of a thread, and the log they agree on. -/
structure Voters (ι : Type) where
  node : ι → Node
  thread : Thread
  /-- The committed log; it is handed to every voter from its beginning. -/
  log : List Entry

/-- An environment in which no database call fails. -/
structure Env.Sound (env : Env) : Prop where
  fails : ∀ k w, env.fails k w = false
  readFails : env.readFails = false

namespace Voters

variable {ι : Type} (V : Voters ι)

/-- What may happen to voter `i`: it is handed the next entries of the log, a block another voter
has broadcast, or any other call but that for a snapshot.  `gossip` says which blocks are handed to
which voters. -/
inductive Move (gossip : Voter → ThreadBlock → Prop) (S : ι → Voter) (i : ι) : Voter → Prop
  | ready {env : Env} {rd : Ready} {m : Nat} {e' : Backend} (henv : env.Sound)
    (hsnap : rd.snapshot.isEmpty = true)
    (hnext : rd.committedEntries = (V.log.drop (S i).applied).take m)
    (hstep : step (V.node i) env (S i).e (.ready rd) = .ok e') :
    Move gossip S i ⟨e', (S i).applied + rd.committedEntries.length⟩
  | block {env : Env} {b : ThreadBlock} {j : ι} {e' : Backend} (henv : env.Sound)
    (hsent : .broadcast (.committedBlock b) ∈ (S j).e.trace) (hgossip : gossip (S i) b)
    (hstep : step (V.node i) env (S i).e (.inbound (.committedBlock b)) = .ok e') :
    Move gossip S i ⟨e', (S i).applied⟩
  | call {env : Env} {ev : Event} {e' : Backend} (henv : env.Sound) (hready : ∀ rd, ev ≠ .ready rd)
    (hblock : ∀ b, ev ≠ .inbound (.committedBlock b)) (hsnap : ev ≠ .snapshot)
    (hstep : step (V.node i) env (S i).e ev = .ok e') : Move gossip S i ⟨e', (S i).applied⟩

/-- One voter moves. -/
def Step [DecidableEq ι] (gossip : Voter → ThreadBlock → Prop) (S S' : ι → Voter) : Prop :=
  ∃ i v, V.Move gossip S i v ∧ S' = Function.update S i v

/-- Every voter has been started on a database that has no blocks of the thread. -/
def Initial (S : ι → Voter) : Prop :=
  ∀ i, (S i).applied = 0 ∧ ∃ env s start, s.blockRows V.thread.id = [] ∧
    newRaftBackend (V.node i) env V.thread s = .ok (start, (S i).e)

/-- The condition on what is handed to a voter: it has a block of this height. -/
def Held (v : Voter) (b : ThreadBlock) : Prop :=
  (v.e.store.getBlock v.e.thread.id b.height).isSome = true

instance (v : Voter) (b : ThreadBlock) : Decidable (Held v b) :=
  inferInstanceAs (Decidable (_ = true))

/-- A voter holds the image of the entries that have been handed to it, and no batch is to be tried
again. -/
structure Follows (i : ι) (v : Voter) : Prop extends
    Voter.Follows (V.node i) V.thread.id V.log v where
  pendingReady : v.e.pendingReady = none

end Voters

namespace Voters

variable {ι : Type} {V : Voters ι} {S S' : ι → Voter} {i : ι} {v : Voter}

theorem Initial.follows (h : V.Initial S) (i : ι) : V.Follows i (S i) := by
  obtain ⟨happlied, env, s, start, hrows, hnew⟩ := h i
  obtain ⟨hthread, hpending, hstore, -, -⟩ := newRaftBackend_eq_ok hnew
  refine ⟨⟨by rw [hthread], ?_, fun rd hrd => ?_⟩, hpending⟩
  · rw [happlied, List.take_zero, hstore]
    exact image_nil hrows
  · rw [hpending] at hrd
    exact absurd hrd (Option.not_mem_none rd)

/-- The entries that come next extend the image by themselves. -/
theorem Follows.ready {rd : Ready} {m : Nat} (hv : V.Follows i v)
    (henv : env.Sound) (hsnap : rd.snapshot.isEmpty = true)
    (hnext : rd.committedEntries = (V.log.drop v.applied).take m)
    (hstep : step (V.node i) env v.e (.ready rd) = .ok e') :
    V.Follows i ⟨e', v.applied + rd.committedEntries.length⟩ := by
  have hbatch : v.e.pendingReady.getD rd = rd := by rw [hv.pendingReady, Option.getD_none]
  have hbase : v.base rd = v.applied := if_pos hsnap
  have hfollows := hv.toFollows.ready ⟨fun k ids b => henv.fails k _, hbatch.symm ▸ hsnap⟩
    (fun _ => by rw [hbase, hnext]; exact List.take_prefix _ _) hstep
  rcases step_ready_eq_ok hstep with ⟨e₁, δ, hp, rfl⟩ | ⟨⟨k, w, hfail⟩, -⟩
  · rw [if_pos rfl, hbatch, hbase] at hfollows
    exact ⟨hbatch.symm ▸ hfollows, rfl⟩
  · rw [henv.fails] at hfail
    cases hfail

theorem Follows.block {b : ThreadBlock} (hv : V.Follows i v) (henv : env.Sound) (hheld : Held v b)
    (hstep : step (V.node i) env v.e (.inbound (.committedBlock b)) = .ok e') :
    V.Follows i ⟨e', v.applied⟩ := by
  have hok : Voter.Steady env v.e (.inbound (.committedBlock b)) := ⟨henv.readFails, hheld⟩
  obtain rfl : applyCommittedBlock (V.node i) env v.e b = e' := Except.ok.inj hstep
  refine ⟨hv.toFollows.call hok (fun _ h => by cases h) hstep, ?_⟩
  rw [show applyCommittedBlock (V.node i) env v.e b = v.e from if_pos hok]
  exact hv.pendingReady

theorem Follows.call {ev : Event} (hv : V.Follows i v)
    (hready : ∀ rd, ev ≠ .ready rd) (hblock : ∀ b, ev ≠ .inbound (.committedBlock b))
    (hstep : step (V.node i) env v.e ev = .ok e') : V.Follows i ⟨e', v.applied⟩ := by
  have hok : Voter.Steady env v.e ev := by
    unfold Voter.Steady
    split
    · exact absurd rfl (hready _)
    · exact absurd rfl (hblock _)
    · trivial
  exact ⟨hv.toFollows.call hok hready hstep, (pendingReady_of_step hready hstep).trans hv.pendingReady⟩

theorem Follows.move (hS : ∀ i, V.Follows i (S i)) (h : V.Move Held S i v) : V.Follows i v := by
  cases h with
  | ready henv hsnap hnext hstep => exact (hS i).ready henv hsnap hnext hstep
  | block henv hsent hgossip hstep => exact (hS i).block henv hgossip hstep
  | call henv hready hblock hsnap hstep => exact (hS i).call hready hblock hstep

theorem follows_of_run [DecidableEq ι] (h₀ : V.Initial S)
    (hrun : Relation.ReflTransGen (V.Step Held) S S') (i : ι) : V.Follows i (S' i) := by
  induction hrun generalizing i with
  | refl => exact h₀.follows i
  | tail _ hstep ih =>
    obtain ⟨j, v, hmove, rfl⟩ := hstep
    rcases eq_or_ne i j with rfl | hne
    · rw [Function.update_self]
      exact Follows.move ih hmove
    · rw [Function.update_of_ne hne]
      exact ih i

/-- The hashes a voter holds are those of the chain of the log. -/
theorem Follows.blockHash (hv : V.Follows i v) (h : Int) :
    (v.e.store.getBlock V.thread.id h).map ThreadBlock.blockHash =
      ((chainOf (V.node i) V.thread.id (V.log.take v.applied)).find? fun b => b.height = h).map
        ThreadBlock.blockHash := by
  obtain ⟨bs, hc, himg⟩ := hv.image
  rw [hc.getBlock, ← himg, List.find?_map, Option.map_map, Option.map_map]
  rfl

/-- **Voters that have been handed the same entries hold the same blocks**, one for each entry of
the log that has data, in the order of the log. -/
theorem voters_converge [DecidableEq ι] (hlog : ∀ entry ∈ V.log, isProposed entry = true)
    (h₀ : V.Initial S) (hrun : Relation.ReflTransGen (V.Step Held) S S') :
    (∀ i, ∃ bs, (S' i).e.store.Chain V.thread.id bs ∧
      bs.map (fun b => (b.entries, b.proposerDid, b.round)) =
        (V.log.take (S' i).applied).filterMap contentOf) ∧
    ∀ i j, (S' i).applied = (S' j).applied → ∀ h,
      ((S' i).e.store.getBlock V.thread.id h).map ThreadBlock.blockHash =
        ((S' j).e.store.getBlock V.thread.id h).map ThreadBlock.blockHash := by
  have htake (k : Nat) : ∀ entry ∈ V.log.take k, isProposed entry = true :=
    fun entry h => hlog entry (List.mem_of_mem_take h)
  have hS := follows_of_run h₀ hrun
  constructor
  · intro i
    obtain ⟨bs, hc, himg⟩ := (hS i).image
    refine ⟨bs, hc, ?_⟩
    rw [← map_content_chainOf (htake _) (V.node i) V.thread.id, ← himg, List.map_map]
    rfl
  · intro i j happlied h
    rw [(hS i).blockHash, (hS j).blockHash, happlied, chainOf_eq (htake _) (V.node i) (V.node j)]

end Voters

namespace Trio

/-- The three replicas and their log. -/
def voters : Voters (Fin 3) := ⟨node, thread, log⟩

/-- A voter that has been handed nothing. -/
def newcomer (i : Fin 3) : Voter := ⟨first i, 0⟩

/-- The block of the log's entry. -/
def block : ThreadBlock := fillBlock "t" 1 [post] "d1" 1 1 ""

/-- A voter is handed the log. -/
def handLog (i : Fin 3) (v : Voter) : Voter :=
  ⟨final (step (node i) calm v.e (.ready (batch log))), v.applied + 1⟩

/-- A voter is handed the block. -/
def handBlock (i : Fin 3) (v : Voter) : Voter :=
  ⟨final (step (node i) calm v.e (.inbound (.committedBlock block))), v.applied⟩

theorem initial_newcomer : voters.Initial newcomer :=
  fun i => ⟨rfl, calm, .empty, _, rfl, newRaftBackend_first i⟩

theorem calm_sound : calm.Sound := ⟨fun _ _ => rfl, rfl⟩

theorem step_handLog {gossip : Voter → ThreadBlock → Prop} {S : Fin 3 → Voter} {i : Fin 3}
    {v : Voter} (hv : S i = v) (hnew : v.applied = 0)
    (hok : (step (node i) calm v.e (.ready (batch log))).isOk = true) :
    voters.Step gossip S (Function.update S i (handLog i v)) := by
  subst hv
  refine ⟨i, _, .ready (m := 1) calm_sound rfl ?_ (step_eq_ok hok), rfl⟩
  rw [hnew]
  rfl

theorem step_handBlock {gossip : Voter → ThreadBlock → Prop} {S : Fin 3 → Voter} {i : Fin 3}
    {v w : Voter} (hv : S i = v) (hw : S 0 = w)
    (hsent : .broadcast (.committedBlock block) ∈ w.e.trace) (hgossip : gossip v block) :
    voters.Step gossip S (Function.update S i (handBlock i v)) := by
  subst hv hw
  exact ⟨i, _, .block calm_sound hsent hgossip rfl, rfl⟩

/-- The block of the first replica reaches the second before the log. -/
def early : Fin 3 → Voter :=
  Function.update (Function.update (Function.update newcomer 0 (handLog 0 (newcomer 0))) 1
    (handBlock 1 (newcomer 1))) 1 (handLog 1 (handBlock 1 (newcomer 1)))

/-- The block of the first replica reaches the second after the log. -/
def late : Fin 3 → Voter :=
  Function.update (Function.update (Function.update newcomer 0 (handLog 0 (newcomer 0))) 1
    (handLog 1 (newcomer 1))) 1 (handBlock 1 (handLog 1 (newcomer 1)))

theorem run_early : Relation.ReflTransGen (voters.Step fun _ _ => True) newcomer early := by
  refine .tail (.tail (.single (step_handLog rfl rfl ?_)) (step_handBlock ?_ rfl ?_ trivial))
    (step_handLog ?_ rfl ?_)
  · decide +kernel
  · rfl
  · decide +kernel
  · rfl
  · decide +kernel

theorem run_late : Relation.ReflTransGen (voters.Step Voters.Held) newcomer late := by
  refine .tail (.tail (.single (step_handLog rfl rfl ?_)) (step_handLog rfl rfl ?_))
    (step_handBlock rfl rfl ?_ ?_)
  · decide +kernel
  · decide +kernel
  · decide +kernel
  · decide +kernel

/-- The second replica stores the block of the first, and then makes another one of the entry. -/
theorem voters_diverge : voters.Initial newcomer ∧
    Relation.ReflTransGen (voters.Step fun _ _ => True) newcomer early ∧
      (∀ entry ∈ voters.log, isProposed entry = true) ∧
      (early 0).applied = 1 ∧ (early 1).applied = 1 ∧ (voters.log.filterMap contentOf).length = 1 ∧
      ((early 0).e.store.blockRows "t").map BlockRow.height = [1] ∧
      ((early 1).e.store.blockRows "t").map BlockRow.height = [1, 2] ∧
      (early 0).e.store.getBlock "t" 2 = none ∧
      ((early 1).e.store.getBlock "t" 2).isSome = true := by
  refine ⟨initial_newcomer, run_early, ?_⟩
  decide +kernel

/-- The block is handed over when both replicas have applied the log. -/
theorem voters_converge_late : (late 0).applied = (late 1).applied ∧
    ∀ h, ((late 0).e.store.getBlock "t" h).map ThreadBlock.blockHash =
      ((late 1).e.store.getBlock "t" h).map ThreadBlock.blockHash := by
  have hlog : ∀ entry ∈ voters.log, isProposed entry = true := by decide +kernel
  have hconv := Voters.voters_converge hlog initial_newcomer run_late
  exact ⟨rfl, hconv.2 0 1 rfl⟩

end Trio

end MoltMesh.Raft

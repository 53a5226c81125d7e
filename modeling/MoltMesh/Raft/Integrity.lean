import Mathlib.Logic.Relation
import MoltMesh.Raft.Image

/-!
# Integrity of a replica's chain

A replica of a Raft thread stores the blocks it makes of the log and the blocks
others send it.  Nothing a peer sends is checked, so the chain stays one that the
verifier accepts only if each block that is let in is the valid next one
(`Admissible`).  Then no block that can be read is ever changed
(`replica_chain_sound`).
-/

namespace MoltMesh.Raft

open MoltMesh.Lib Pb Raftpb

variable {N : Node} {env : Env} {e e' : Backend} {T : String} {bs : List ThreadBlock}

/-! ## Sound chains -/

/-- A stored chain whose blocks have their own hashes, as they are read back. -/
structure SoundChain (s : Store) (T : String) (bs : List ThreadBlock) : Prop extends
    s.Chain T bs where
  hash : ∀ b ∈ bs, raftBlockHash (stored b) = b.blockHash

theorem SoundChain.congr {s s' : Store} (hs : SoundChain s T bs) (h : s'.blocks = s.blocks) :
    SoundChain s' T bs := by
  refine ⟨hs.toChain.congr ?_, hs.hash⟩
  rw [Store.blockRows, Store.blockRows, h]

/-- The entries a committed entry brings in use the stored fields only. -/
def Storable (N : Node) (entry : Entry) : Prop :=
  ∀ x ∈ blockOf N entry, ∀ t ∈ x.1, FiveFields t

theorem applyEntry_extends (env : Env) {entry : Entry} (h : Storable N entry)
    (hs : SoundChain e.store e.thread.id bs) :
    ∃ bs', bs <+: bs' ∧ SoundChain (applyEntry N env e entry).store e.thread.id bs' := by
  obtain ⟨δ, hδ⟩ := applyEntry_trail N env e entry
  rcases hδ.chain hs.toChain with ⟨hc, -⟩ | ⟨b, hb, hc⟩
  · exact ⟨bs, List.prefix_rfl, hc, hs.hash⟩
  · refine ⟨bs ++ [b], List.prefix_append _ _, hc, fun c hmem => ?_⟩
    rcases List.mem_append.mp hmem with hmem | hmem
    · exact hs.hash c hmem
    · obtain rfl := List.mem_singleton.mp hmem
      obtain ⟨x, hx, rfl⟩ := Option.map_eq_some_iff.mp hb
      rw [stored_eq_self (b := fillBlock _ _ _ _ _ _ _) (h x hx)]
      rfl

theorem applyAll_extends (env : Env) {entries : List Entry} (h : ∀ entry ∈ entries, Storable N entry)
    (hs : SoundChain e.store e.thread.id bs) : ∃ bs', bs <+: bs' ∧
      SoundChain (entries.foldl (applyEntry N env) e).store e.thread.id bs' := by
  induction entries generalizing e bs with
  | nil => exact ⟨bs, List.prefix_rfl, hs⟩
  | cons entry entries ih =>
    obtain ⟨bs₁, hmore, hs₁⟩ := applyEntry_extends env (h entry List.mem_cons_self) hs
    have hid := applyEntry_threadId N env e entry
    obtain ⟨bs₂, hmore', hs₂⟩ := ih (fun x hx => h x (List.mem_cons_of_mem _ hx)) (hid ▸ hs₁)
    exact ⟨bs₂, hmore.trans hmore', hid ▸ hs₂⟩

/-! ## Steps -/

/-- The block is the valid successor of the newest one. -/
structure ValidNext (s : Store) (T : String) (b : ThreadBlock) : Prop where
  threadId : b.threadId = T
  height : b.height = s.nextHeight T
  parentHash : b.parentHash = s.tipHash T
  hash : raftBlockHash (stored b) = b.blockHash
  committed : 0 < b.committedAt

/-- The condition on a step: a block that comes in is seen to be held already, or belongs to another
thread, or is the valid next one; the entries of the log use the stored fields only. -/
def Admissible (N : Node) (env : Env) (e : Backend) : Event → Prop
  | .inbound (.committedBlock b) =>
    (env.readFails = false ∧ (e.store.getBlock e.thread.id b.height).isSome = true) ∨
      b.threadId ≠ e.thread.id ∨ ValidNext e.store e.thread.id b
  | .ready rd => ∀ entry ∈ (e.pendingReady.getD rd).committedEntries, Storable N entry
  | _ => True

/-- A step of a replica; the environment decides which of its database calls fail. -/
def ReplicaStep (N : Node) (ok : Env → Backend → Event → Prop) (e e' : Backend) : Prop :=
  ∃ env ev, ok env e ev ∧ e' = final (step N env e ev)

theorem inbound_extends {b : ThreadBlock} {δ : List Effect} (h : InboundTrail env e b e' δ)
    (hok : Admissible N env e (.inbound (.committedBlock b)))
    (hs : SoundChain e.store e.thread.id bs) :
    ∃ bs', bs <+: bs' ∧ SoundChain e'.store e.thread.id bs' := by
  cases h with
  | held hread hheld he => exact ⟨bs, List.prefix_rfl, he ▸ hs⟩
  | failed w he => exact ⟨bs, List.prefix_rfl, he ▸ hs⟩
  | @saved e₁ e₂ δ hfree hw hmem hδ he =>
    have hblocks : e'.store.blocks = (e.store.saveBlock b).blocks := by
      rw [he]
      change e₂.store.blocks = _
      rw [hδ.sameLog.blocks, hw.store]
      rfl
    rcases hok with ⟨hread, hheld⟩ | hother | hnext
    · rcases hfree with hfree | hfree
      · rw [hread] at hfree
        cases hfree
      · rw [hheld] at hfree
        cases hfree
    · have hs' : SoundChain (e.store.saveBlock b) e.thread.id bs :=
        ⟨hs.toChain.congr (Store.blockRows_saveBlock_of_ne hother), hs.hash⟩
      exact ⟨bs, List.prefix_rfl, hs'.congr hblocks⟩
    · have hc := hs.toChain.saveBlock hnext.threadId
        (hnext.height.trans hs.toChain.nextHeight) (hnext.parentHash.trans hs.toChain.tipHash)
        hnext.committed
      refine ⟨bs ++ [b], List.prefix_append _ _, SoundChain.congr ⟨hc, ?_⟩ hblocks⟩
      intro c hmem'
      rcases List.mem_append.mp hmem' with hmem' | hmem'
      · exact hs.hash c hmem'
      · rw [List.mem_singleton.mp hmem']
        exact hnext.hash

/-- **One step extends a sound chain.** -/
theorem replicaStep_extends (hstep : ReplicaStep N (Admissible N) e e')
    (hs : SoundChain e.store e.thread.id bs) : e'.thread.id = e.thread.id ∧
      ∃ bs', bs <+: bs' ∧ SoundChain e'.store e.thread.id bs' := by
  obtain ⟨env, ev, hok, rfl⟩ := hstep
  rcases (step_trail N env e ev).writers with ⟨rd, r, p, rfl, hr, he⟩ | ⟨b, δ, rfl, hδ⟩ | ⟨δ, hlog, hspares⟩
  · rw [he]
    rcases hr.blocks with ⟨hblocks, hid⟩ | ⟨e₁, δ, hpers, hend⟩
    · exact ⟨hid, bs, List.prefix_rfl, hs.congr hblocks⟩
    · have hid : e₁.thread.id = e.thread.id := hpers.logged.threadId
      obtain ⟨bs', hmore, hs'⟩ := applyAll_extends env hok (hid ▸ hs.congr hpers.blocks)
      obtain ⟨δ', hall⟩ := applyAll_logged N env e₁ (e.pendingReady.getD rd).committedEntries
      rw [hend]
      exact ⟨hall.threadId.trans hid, bs', hmore, hid ▸ hs'⟩
  · exact ⟨hδ.logged.threadId, inbound_extends hδ hok hs⟩
  · refine ⟨hlog.threadId, bs, List.prefix_rfl, hs.congr ?_⟩
    rw [hlog.store, blocks_replay hspares]

/-! ## Runs -/

theorem run_extends (hrun : Relation.ReflTransGen (ReplicaStep N (Admissible N)) e e')
    (hs : SoundChain e.store e.thread.id bs) : e'.thread.id = e.thread.id ∧
      ∃ bs', bs <+: bs' ∧ SoundChain e'.store e.thread.id bs' := by
  induction hrun with
  | refl => exact ⟨rfl, bs, List.prefix_rfl, hs⟩
  | tail _ hstep ih =>
    obtain ⟨hid, bs₁, hmore, hs₁⟩ := ih
    obtain ⟨hid', bs₂, hmore', hs₂⟩ := replicaStep_extends hstep (hid.symm ▸ hs₁)
    exact ⟨hid'.trans hid, bs₂, hmore.trans hmore', hid ▸ hs₂⟩

/-- **The chain of a replica is sound**, and what can be read of it never changes, in every run from
a database without blocks of the thread whose steps are admissible. -/
theorem replica_chain_sound {thread : Thread} {env₀ : Env} {s : Store} {start : NodeStart}
    {e₀ : Backend} (hrows : s.blockRows thread.id = [])
    (hnew : newRaftBackend N env₀ thread s = .ok (start, e₀))
    (hrun : Relation.ReflTransGen (ReplicaStep N (Admissible N)) e₀ e)
    (hlater : Relation.ReflTransGen (ReplicaStep N (Admissible N)) e e') :
    (∃ bs, e.store.committedBlocks thread.id = bs.map BlockRow.ofBlock ∧
      (∀ (i : Nat) (b : ThreadBlock), bs[i]? = some b → b.height = i + 1) ∧
      (bs ≠ [] → verifyChain .raft (e.store.getBlocksSince thread.id 0 0) = .ok ())) ∧
    ∀ h b, e.store.getBlock thread.id h = some b → e'.store.getBlock thread.id h = some b := by
  obtain ⟨hthread, -, hstore, -, -⟩ := newRaftBackend_eq_ok hnew
  have hid₀ : e₀.thread.id = thread.id := congrArg Thread.id hthread
  have hs₀ : SoundChain e₀.store e₀.thread.id [] := by
    refine ⟨Store.chain_nil ?_, fun b hb => absurd hb List.not_mem_nil⟩
    rw [hid₀, hstore]
    exact hrows
  obtain ⟨hid, bs, -, hs⟩ := run_extends hrun hs₀
  obtain ⟨-, bs', hmore, hs'⟩ := run_extends hlater (hid.symm ▸ hs)
  rw [hid] at hs'
  rw [← hid₀]
  refine ⟨⟨bs, hs.toChain.committedBlocks, fun i b hb => ?_, fun hne => hs.toChain.verifyChain hne hs.hash⟩,
    fun h b => hs.toChain.getBlock_mono hs'.toChain hmore⟩
  have hh : b.height = 1 + (i : Int) := hs.toChain.linked.height_getElem? hb
  omega

namespace Trio

/-- A block with a made-up hash. -/
def forgedBlock : ThreadBlock := { fillBlock "t" 1 [] "d1" 1 7 "" with blockHash := "forged" }

/-- A block a peer may send first. -/
def firstBlock : ThreadBlock := fillBlock "t" 1 [] "d1" 1 1 ""

/-- A replica stores whatever block a peer sends: here one at height 7, with nothing below it. -/
theorem replica_chain_forged :
    Relation.ReflTransGen (ReplicaStep (node 2) fun _ _ _ => True) (first 2)
        (final (step (node 2) calm (first 2) (.inbound (.committedBlock forgedBlock)))) ∧
      verifyChain .raft ((final (step (node 2) calm (first 2)
        (.inbound (.committedBlock forgedBlock)))).store.getBlocksSince "t" 0 0) ≠ .ok () := by
  refine ⟨.single ⟨calm, _, trivial, rfl⟩, ?_⟩
  decide +kernel

/-- A replica that is sent the valid first block. -/
theorem replica_chain_sound_first :
    verifyChain .raft ((final (step (node 2) calm (first 2)
      (.inbound (.committedBlock firstBlock)))).store.getBlocksSince "t" 0 0) = .ok () := by
  have hnext : ValidNext (first 2).store (first 2).thread.id firstBlock :=
    ⟨rfl, rfl, rfl, rfl, Int.one_pos⟩
  have hrun : Relation.ReflTransGen (ReplicaStep (node 2) (Admissible (node 2))) (first 2)
      (final (step (node 2) calm (first 2) (.inbound (.committedBlock firstBlock)))) :=
    .single ⟨calm, .inbound (.committedBlock firstBlock), Or.inr (Or.inr hnext), rfl⟩
  obtain ⟨⟨bs, hbs, -, hverify⟩, -⟩ :=
    replica_chain_sound (s := .empty) rfl (newRaftBackend_first 2) hrun .refl
  refine hverify ?_
  rintro rfl
  exact absurd hbs (by decide +kernel)

end Trio

end MoltMesh.Raft

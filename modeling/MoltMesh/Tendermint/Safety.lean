import MoltMesh.Tendermint.Honest
import MoltMesh.Tendermint.Script
import MoltMesh.Tendermint.Validity

/-!
# Safety of Tendermint consensus

The results about runs of the Tendermint replicas of one thread.
-/

namespace MoltMesh.Tendermint

open MoltMesh.Lib Pb

/-! ## Agreement under Byzantine faults -/

/-- **Agreement.**  In a run of `3f + 1` replicas, at most `f` of them Byzantine, whose steps are
all safe, no two calls of `commitBlock` at the same height are for blocks of different hash.

`handleProposal` checks neither half of what makes a proposal safe. -/
theorem commitBlock_agreement (G : Group) {S₀ S : Cluster} (h₀ : G.Initial S₀)
    (hrun : G.Run (fun S a => G.Authentic S a ∧ G.Safe S a) S₀ S) {did did' : String}
    (hd : G.Correct did) (hd' : G.Correct did') {h : Int} {b b' : ThreadBlock}
    (hb : (h, b) ∈ commits (S did).trace) (hb' : (h, b') ∈ commits (S did').trace) :
    b.blockHash = b'.blockHash :=
  (Group.Inv.run h₀ hrun).agreement hd hd' hb hb'

/-- An event at which nothing has to be asked of the rest of the group for the step to be safe. -/
def calm (e : Backend) : Event → Bool
  | .inbound ⟨_, .proposal prop⟩ => prop.block.all fun block =>
    block.height = prop.height ∧
      ¬(lockedOnDifferent e.cs block.blockHash && polcSupersedes e.cs prop)
  | .tick => e.cs.round ≠ Int32.maxValue
  | _ => true

theorem safe_of_calm {G : Group} {S : Cluster} {a : Action} (h : calm (S a.did) a.event = true) :
    G.Safe S a where
  proposal := by
    rintro ⟨t, payload⟩ prop block hev hp hok
    obtain rfl : payload = .proposal prop := hp
    rw [hev, calm, hok.carries] at h
    obtain ⟨hheight, hno⟩ := of_decide_eq_true h
    refine ⟨hheight, fun hl hs => ?_⟩
    rw [hl, hs] at hno
    exact absurd rfl hno
  round := by
    intro hev _ _
    rw [hev] at h
    exact of_decide_eq_true h

namespace Quartet

/-- `did1` and `did3` prevote and precommit block `a` of round 0, and `did1` commits it. -/
def commitFirst : List Line :=
  [⟨0, 0, .pump⟩, ⟨2, 0, .pump⟩, ⟨3, 0, .pump⟩,
   ⟨0, 1, .inject (proposal 0 (-1) (block 0 "aaaaaaaa"))⟩,
   ⟨2, 1, .inject (proposal 0 (-1) (block 0 "aaaaaaaa"))⟩,
   ⟨0, 2, .deliver 2 0⟩, ⟨0, 2, .inject (vote 0 .prevote "aaaaaaaa")⟩,
   ⟨2, 2, .deliver 0 0⟩, ⟨2, 2, .inject (vote 0 .prevote "aaaaaaaa")⟩,
   ⟨0, 3, .deliver 2 1⟩, ⟨0, 3, .inject (vote 0 .precommit "aaaaaaaa")⟩]

/-- `did3` commits block `a` as well. -/
def commitToo : List Line :=
  [⟨2, 4, .deliver 0 1⟩, ⟨2, 4, .inject (vote 0 .precommit "aaaaaaaa")⟩]

/-- `did3` and `did4` see no more of round 0.  In round 4, with `did2` the proposer again, the
proposal for block `b` announces a proof of lock in round 1, in which nobody has prevoted a block.
`did3` gives up its lock, and commits `b`. -/
def commitOther : List Line :=
  timeouts 2 10 ++ timeouts 3 12 ++
  [⟨2, 50000, .inject (proposal 4 1 (block 4 "bbbbbbbb"))⟩,
   ⟨3, 50000, .inject (proposal 4 1 (block 4 "bbbbbbbb"))⟩,
   ⟨2, 50001, .deliver 3 9⟩, ⟨2, 50001, .inject (vote 4 .prevote "bbbbbbbb")⟩,
   ⟨3, 50001, .deliver 2 9⟩, ⟨3, 50001, .inject (vote 4 .prevote "bbbbbbbb")⟩,
   ⟨2, 50002, .deliver 3 10⟩, ⟨2, 50002, .inject (vote 4 .precommit "bbbbbbbb")⟩]

theorem correct_did1 : G.Correct did1 := by decide +kernel

theorem correct_did3 : G.Correct did3 := by decide +kernel

end Quartet

open Quartet in
/-- Two replicas commit a block in a run whose steps are safe. -/
theorem commitBlock_agreement_quartet : ∃ S₀ S b b', G.Initial S₀ ∧
    G.Run (fun S a => G.Authentic S a ∧ G.Safe S a) S₀ S ∧ (1, b) ∈ commits (S did1).trace ∧
      (1, b') ∈ commits (S did3).trace ∧ b.blockHash = b'.blockHash := by
  have hexec : (G.exec calm G.fresh (commitFirst ++ commitToo)).map
      (List.map fun e => commits e.trace) =
      some [[(1, stamped (clock 3) (block 0 "aaaaaaaa"))], [],
        [(1, stamped (clock 4) (block 0 "aaaaaaaa"))], []] := by
    decide +kernel
  obtain ⟨S, hrun, hS⟩ := Group.exec_outcome hexec
  have h1 : (1, stamped (clock 3) (block 0 "aaaaaaaa")) ∈ commits (S did1).trace := by
    rw [hS 0 did1 _ rfl rfl]
    exact List.mem_singleton_self _
  have h3 : (1, stamped (clock 4) (block 0 "aaaaaaaa")) ∈ commits (S did3).trace := by
    rw [hS 2 did3 _ rfl rfl]
    exact List.mem_singleton_self _
  have hsafe : G.Run (fun S a => G.Authentic S a ∧ G.Safe S a) _ S :=
    Group.run_mono (fun _ _ h => ⟨h.1.authentic, safe_of_calm h.2.2⟩) hrun
  exact ⟨_, S, _, _, Group.initial_fresh, hsafe, h1, h3,
    commitBlock_agreement G Group.initial_fresh hsafe correct_did1 correct_did3 h1 h3⟩

open Quartet in
/-- **Agreement fails**: one Byzantine replica of four makes two others commit different blocks at
height 1, in a run in which nothing is forged, no database call fails and nothing panics. -/
theorem commitBlock_disagreement : ∃ S₀ S b b', G.Initial S₀ ∧
    G.Run (fun S a => G.Authentic S a ∧ G.Faultless S a) S₀ S ∧
      G.Correct did1 ∧ G.Correct did3 ∧ (1, b) ∈ commits (S did1).trace ∧
        (1, b') ∈ commits (S did3).trace ∧ b.blockHash ≠ b'.blockHash := by
  have hexec : (G.exec (fun _ _ => true) G.fresh (commitFirst ++ commitOther)).map
      (List.map fun e => commits e.trace) =
      some [[(1, stamped (clock 3) (block 0 "aaaaaaaa"))], [],
        [(1, stamped (clock 50002) (block 4 "bbbbbbbb"))], []] := by
    decide +kernel
  obtain ⟨S, hrun, hS⟩ := Group.exec_outcome hexec
  refine ⟨_, S, stamped (clock 3) (block 0 "aaaaaaaa"), stamped (clock 50002) (block 4 "bbbbbbbb"),
    Group.initial_fresh, ?_, correct_did1, correct_did3, ?_, ?_, ?_⟩
  · exact Group.run_mono (fun _ _ h => ⟨h.1.authentic, h.2.1⟩) hrun
  · rw [hS 0 did1 _ rfl rfl]
    exact List.mem_singleton_self _
  · rw [hS 2 did3 _ rfl rfl]
    exact List.mem_singleton_self _
  · decide

/-! ## Agreement without faults -/

/-- **Agreement on blocks.**  In a run of `3f + 1` replicas in which every message delivered is one
that a replica has broadcast, two commits at the same height are of the same block, up to the time
of the commit, as long as SHA-256 has no collision among the proposed blocks and no round passes the
largest `int32`.  Replicas that do not run the code are silent here. -/
theorem commitBlock_same_block (G : Group) {S₀ S : Cluster} (h₀ : G.Initial S₀)
    (hrun : G.Run (fun S a => G.Delivered S a ∧ InRange (S a.did) a.env a.event) S₀ S) (hcf : G.CollisionFree S)
    {did did' : String} (hd : G.Correct did) (hd' : G.Correct did') {h : Int} {b b' : ThreadBlock}
    (hb : (h, b) ∈ commits (S did).trace) (hb' : (h, b') ∈ commits (S did').trace) :
    b.threadId = b'.threadId ∧ b.height = b'.height ∧ b.round = b'.round ∧
      b.parentHash = b'.parentHash ∧ b.entries = b'.entries ∧ b.proposerDid = b'.proposerDid ∧
        b.blockHash = b'.blockHash := by
  obtain ⟨hI, hH⟩ := Group.AllHonest.run h₀ hrun hcf
  rw [hH.agreement hI hcf hd hd' hb hb']
  exact ⟨rfl, rfl, rfl, rfl, rfl, rfl, rfl⟩

namespace Quartet

/-- `did2` proposes, `did1`, `did2` and `did4` vote, and `did1` and `did4` commit. -/
def commitBoth : List Line :=
  [⟨0, 0, .pump⟩, ⟨1, 0, .enqueue ⟨did1, [1, 2], "text", "", 5, 0, 0, [], 0, 0, [], []⟩⟩,
   ⟨1, 0, .pump⟩, ⟨3, 0, .pump⟩,
   ⟨0, 1, .deliver 1 0⟩, ⟨1, 1, .deliver 1 0⟩, ⟨3, 1, .deliver 1 0⟩,
   ⟨0, 2, .deliver 1 1⟩, ⟨0, 2, .deliver 3 0⟩,
   ⟨1, 2, .deliver 0 0⟩, ⟨1, 2, .deliver 3 0⟩,
   ⟨3, 2, .deliver 0 0⟩, ⟨3, 2, .deliver 1 1⟩,
   ⟨0, 3, .deliver 1 2⟩, ⟨0, 3, .deliver 3 1⟩,
   ⟨3, 4, .deliver 0 1⟩, ⟨3, 4, .deliver 1 2⟩]

theorem correct_of_mem {did : String} (h : did ∈ thread.replicaDids) : allCorrect.Correct did :=
  ⟨h, Finset.notMem_empty did⟩

/-- A single proposal has nothing to collide with. -/
theorem collisionFree_of_single {S : Cluster}
    (h2 : (sentProposals (S did2).trace).length = 1)
    (h : ∀ did ∈ thread.replicaDids, did ≠ did2 → (sentProposals (S did).trace).length = 0) :
    allCorrect.CollisionFree S := by
  have hsender : ∀ did, allCorrect.Correct did → ∀ p ∈ sentProposals (S did).trace, did = did2 := by
    intro did hc p hp
    by_contra hne
    exact absurd (List.length_pos_of_mem hp) (h did hc.1 hne).not_gt
  intro _ _ b _ _ b' ⟨did, p, hc, hmem, _, _, hb⟩ ⟨did', p', hc', hmem', _, _, hb'⟩ _
  obtain rfl := hsender did hc p hmem
  obtain rfl := hsender did' hc' p' hmem'
  obtain ⟨q, hq⟩ := List.length_eq_one_iff.mp h2
  rw [hq, List.mem_singleton] at hmem hmem'
  rw [hmem] at hb
  rw [hmem'] at hb'
  rw [Option.some.inj (hb.symm.trans hb')]

end Quartet

open Quartet in
/-- Two of four replicas commit the block a third one has proposed. -/
theorem commitBlock_same_block_quartet : ∃ S₀ S b b', allCorrect.Initial S₀ ∧
    allCorrect.Run (fun S a => allCorrect.Delivered S a ∧ InRange (S a.did) a.env a.event) S₀ S ∧
      allCorrect.CollisionFree S ∧ (1, b) ∈ commits (S did1).trace ∧
        (1, b') ∈ commits (S did4).trace ∧ b.entries = b'.entries ∧ b.blockHash = b'.blockHash := by
  have hexec : (allCorrect.exec calm allCorrect.fresh commitBoth).map
      (List.map fun e => ((commits e.trace).map Prod.fst, (sentProposals e.trace).length)) =
      some [([1], 0), ([], 1), ([], 0), ([1], 0)] := by
    decide +kernel
  obtain ⟨S, hrun, hS⟩ := Group.exec_outcome hexec
  have h1 := Prod.mk.inj (hS 0 did1 _ rfl rfl)
  have h2 := Prod.mk.inj (hS 1 did2 _ rfl rfl)
  have h3 := Prod.mk.inj (hS 2 did3 _ rfl rfl)
  have h4 := Prod.mk.inj (hS 3 did4 _ rfl rfl)
  have hcf : allCorrect.CollisionFree S := by
    refine collisionFree_of_single h2.2 ?_
    intro did hmem hne
    rcases List.mem_cons.mp hmem with rfl | hmem
    · exact h1.2
    rcases List.mem_cons.mp hmem with rfl | hmem
    · exact absurd rfl hne
    rcases List.mem_cons.mp hmem with rfl | hmem
    · exact h3.2
    · rw [List.mem_singleton.mp hmem]
      exact h4.2
  have hrun' : allCorrect.Run (fun S a => allCorrect.Delivered S a ∧ InRange (S a.did) a.env a.event)
      (allCorrect.cluster allCorrect.fresh) S := by
    refine Group.run_mono (fun S a h => ⟨fun msg hmsg => ?_, (safe_of_calm (G := G) h.2.2).round⟩) hrun
    rcases h.1 msg hmsg with ⟨did, hc, hb, -⟩ | ⟨did, hbyz, -⟩
    · exact ⟨did, hc, hb⟩
    · exact absurd hbyz (Finset.notMem_empty did)
  obtain ⟨⟨h, b⟩, hb, heq⟩ := List.mem_map.mp (h1.1 ▸ List.mem_singleton_self (1 : Int))
  obtain rfl : h = 1 := heq
  obtain ⟨⟨h, b'⟩, hb', heq⟩ := List.mem_map.mp (h4.1 ▸ List.mem_singleton_self (1 : Int))
  obtain rfl : h = 1 := heq
  have hsame := commitBlock_same_block allCorrect Group.initial_fresh hrun' hcf
    (correct_of_mem (by decide +kernel)) (correct_of_mem (by decide +kernel)) hb hb'
  exact ⟨_, S, b, b', Group.initial_fresh, hrun', hcf, hb, hb', hsame.2.2.2.2.1, hsame.2.2.2.2.2.2⟩

/-! ## Validity -/

/-- **Validity.**  In a run whose steps are valid, each block a replica stores through `commitBlock`
is of its thread, was committed while the replica was at the height of the block, has the hash of
the block stored below it as its parent hash and `computeBlockHash` as its own; the heights of these
blocks are `1, 2, …`, the replica's height is always one more than their number, and no further
valid step panics.

`handleProposal` checks nothing of the block of a proposal, and `PubKeyFromDID` accepts keys that
`ed25519.Verify` panics on. -/
theorem commitBlock_chain (G : Group)
    (hkeys : ∀ did ∈ G.thread.replicaDids, ∀ pub, Identity.pubKeyFromDID did = .ok pub →
      pub.length = Identity.publicKeySize) {S₀ S : Cluster} (h₀ : G.Initial S₀)
    (hrun : G.Run (fun S a => ValidStep (G.node a.did) (S a.did) a.env a.event) S₀ S) {did : String}
    (hd : G.Correct did) :
    (∀ b ∈ savedBlocks (S did).trace, b.threadId = G.thread.id ∧
      (b.height, b) ∈ commits (S did).trace ∧
      (S did).store.parentHashAt G.thread.id b.height = some b.parentHash ∧
      b.blockHash = computeBlockHash b) ∧
    (savedBlocks (S did).trace).map ThreadBlock.height =
      (List.range (savedBlocks (S did).trace).length).map (fun i : Nat => (i : Int) + 1) ∧
    (S did).cs.height = (savedBlocks (S did).trace).length + 1 ∧
    ∀ env ev, ValidStep (G.node did) (S did) env ev →
      ∃ e', step (G.node did) env (S did) ev = .ok e' := by
  have hc := Chain.run h₀ hrun did hd
  have hT : Usable (G.node did).thread := by
    refine ⟨?_, hkeys⟩
    intro hnil
    have hlen : G.thread.replicaDids.length = 0 := by
      rw [show G.thread.replicaDids = [] from hnil]
      rfl
    rw [G.length_eq] at hlen
    exact absurd hlen (Nat.succ_ne_zero _)
  refine ⟨?_, hc.heights, hc.height, fun env ev hv => hc.returns hT hv⟩
  intro b hb
  obtain ⟨i, hi⟩ := List.getElem?_of_mem hb
  have hv := hc.valid i b hi
  exact ⟨hv.threadId, hc.called b hb, hv.height ▸ hv.parentHash, hv.blockHash⟩

/-- `ValidStep`, as a check. -/
def sound (T : Thread) (e : Backend) : Event → Bool
  | .inbound ⟨_, .proposal prop⟩ => prop.block.all fun block =>
    block.threadId = T.id ∧ block.height = prop.height ∧
      e.store.parentHashAt T.id prop.height = some block.parentHash ∧
        block.blockHash = computeBlockHash block
  | .tick => e.cs.round ≠ Int32.maxValue
  | _ => true

theorem validStep_of_sound {N : Node} {e : Backend} {env : Env} {ev : Event}
    (h : sound N.thread e ev = true) : ValidStep N e env ev where
  proposal := by
    rintro ⟨t, payload⟩ prop block rfl hp hok
    obtain rfl : payload = .proposal prop := hp
    rw [sound, hok.carries] at h
    obtain ⟨ht, hh, hparent, hhash⟩ := of_decide_eq_true h
    exact ⟨ht, hh, hparent, hhash⟩
  round := by
    rintro rfl _ _
    exact of_decide_eq_true h

theorem Quartet.publicKeySize_of_pubKeyFromDID : ∀ did ∈ thread.replicaDids, ∀ pub,
    Identity.pubKeyFromDID did = .ok pub → pub.length = Identity.publicKeySize := by
  have hkeys : ∀ did ∈ thread.replicaDids, ∀ pub ∈ (Identity.pubKeyFromDID did).toOption,
      pub.length = Identity.publicKeySize := by
    decide +kernel
  intro did hdid pub hpub
  exact hkeys did hdid pub (by rw [hpub]; rfl)

open Quartet in
/-- A replica stores a block in a run whose steps are valid. -/
theorem commitBlock_chain_quartet : ∃ S₀ S b, allCorrect.Initial S₀ ∧
    allCorrect.Run (fun S a => ValidStep (allCorrect.node a.did) (S a.did) a.env a.event) S₀ S ∧
      b ∈ savedBlocks (S did1).trace ∧ b.threadId = "t" ∧ b.blockHash = computeBlockHash b ∧
        (S did1).cs.height = 2 := by
  have hexec : (allCorrect.exec (sound thread) allCorrect.fresh commitBoth).map
      (List.map fun e => (savedBlocks e.trace).length) = some [1, 0, 0, 1] := by
    decide +kernel
  obtain ⟨S, hrun, hS⟩ := Group.exec_outcome hexec
  have hrun' : allCorrect.Run
      (fun S a => ValidStep (allCorrect.node a.did) (S a.did) a.env a.event)
      (allCorrect.cluster allCorrect.fresh) S :=
    Group.run_mono (fun _ _ h => validStep_of_sound h.2.2) hrun
  have hlen := hS 0 did1 1 rfl rfl
  obtain ⟨b, hb⟩ := List.length_pos_iff_exists_mem.mp (hlen ▸ Nat.one_pos)
  obtain ⟨hvalid, -, hheight, -⟩ := commitBlock_chain allCorrect publicKeySize_of_pubKeyFromDID
    Group.initial_fresh hrun' (correct_of_mem List.mem_cons_self)
  obtain ⟨ht, -, -, hhash⟩ := hvalid b hb
  refine ⟨_, S, b, Group.initial_fresh, hrun', hb, ht, hhash, ?_⟩
  rw [hheight, hlen]
  rfl

open Quartet in
/-- **Validity fails**: with one Byzantine replica of four, another one stores a block whose hash
is not its own. -/
theorem commitBlock_stores_invalid : ∃ S₀ S b, G.Initial S₀ ∧
    G.Run (fun S a => G.Authentic S a ∧ G.Faultless S a) S₀ S ∧ G.Correct did1 ∧
      b ∈ savedBlocks (S did1).trace ∧ b.blockHash ≠ computeBlockHash b := by
  have hexec : (G.exec (fun _ _ => true) G.fresh commitFirst).map
      (List.map fun e => savedBlocks e.trace) =
      some [[stamped (clock 3) (block 0 "aaaaaaaa")], [], [], []] := by
    decide +kernel
  obtain ⟨S, hrun, hS⟩ := Group.exec_outcome hexec
  refine ⟨_, S, stamped (clock 3) (block 0 "aaaaaaaa"), Group.initial_fresh, ?_, correct_did1, ?_, ?_⟩
  · exact Group.run_mono (fun _ _ h => ⟨h.1.authentic, h.2.1⟩) hrun
  · rw [hS 0 did1 _ rfl rfl]
    exact List.mem_singleton_self _
  · intro heq
    have hlen := two_mul_length_le_utf8ByteSize_hexEncode
      (Sha256.sum256 (bytes (rawBlock (stamped (clock 3) (block 0 "aaaaaaaa")))))
    rw [Sha256.length_sum256] at hlen
    change _ ≤ (computeBlockHash _).utf8ByteSize at hlen
    rw [← heq] at hlen
    exact absurd hlen (by decide)

end MoltMesh.Tendermint

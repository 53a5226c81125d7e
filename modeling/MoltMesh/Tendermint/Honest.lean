import MoltMesh.Tendermint.Agreement

/-!
# Runs in which every message is a replica's own

When all that is delivered has been broadcast by a replica that runs the code,
what the locking protocol assumes holds by itself: a proposal is for the height
of its block, and its proof-of-lock round does have a polka.  That the polka is
for another block than the receiver's lock rests on the round being part of the
block hash.

A replica proposes at most once at each height and round, so that the hash
determines the block.
-/

namespace MoltMesh.Tendermint

open MoltMesh.Lib LockVoting Pb

variable {r : Int32} {b : ThreadBlock} {a : Action} {did p : String}

/-! ## One replica's proposals -/

/-- A height and a round that a consensus state has reached. -/
def Reached (cs : ConsensusState) (height : Int) (round : Int32) : Prop :=
  height < cs.height ∨ (height = cs.height ∧ round.toInt ≤ cs.round.toInt)

theorem Reached.mono {cs cs' : ConsensusState} (hle : cs.Le cs') {h : Int}
    (hr : Reached cs h r) : Reached cs' h r := by
  unfold Reached ConsensusState.Le at *
  omega

variable {N : Node} {env : Env} {P : Proviso} {e e' : Backend}

/-- An act does not go back. -/
theorem Moves.le (hm : Moves N env P e e')
    (hprop : ∀ b, e.proposal = some b → b.height = e.cs.height)
    (hadv : P.advance e.cs → e.cs.round ≠ Int32.maxValue) : e.cs.Le e'.cs := by
  cases hm with
  | stay hcs _ | stamp _ hcs _ => exact hcs ▸ .refl _
  | accept hok _ hcs _ =>
    rw [hcs]
    exact .of_step (hok.step ▸ Nat.zero_le _)
  | unlock hok _ _ _ hcs _ =>
    rw [hcs]
    exact .inr ⟨rfl, .inr ⟨rfl, hok.step ▸ Nat.zero_le _⟩⟩
  | prevoteNil hs hcs _ =>
    rw [hcs]
    exact .of_step (hs ▸ Nat.zero_le _)
  | precommitNil hs hcs _ =>
    rw [hcs]
    exact .of_step (hs ▸ Nat.le_succ 1)
  | lock hs _ _ hcs _ =>
    rw [hcs]
    exact .inr ⟨rfl, .inr ⟨rfl, hs ▸ Nat.le_succ 1⟩⟩
  | nextRound _ ha hcs _ =>
    rw [hcs]
    refine .of_round ?_
    rw [toInt_add_one (hadv ha)]
    exact Int.lt_succ _
  | skip hr hcs _ =>
    rw [hcs]
    exact .of_round (Int32.lt_iff_toInt_lt.mp hr)
  | commit hok hcs _ =>
    rw [hcs, hprop _ hok.proposal]
    exact .inl (Int.lt_succ _)

/-- A proposal as its proposer makes it. -/
structure OwnProposal (N : Node) (p : Proposal) (b : ThreadBlock) : Prop where
  carries : p.block = some b
  proposerDid : p.proposerDid = N.id.did
  proposer : proposerAt N.thread p.height p.round = some N.id.did
  own : OwnBlock N p.height p.round b

/-- What holds of the proposals of a replica. -/
structure Proposer (N : Node) (e : Backend) : Prop where
  unstarted : e.started = false → sentProposals e.trace = []
  own : ∀ p ∈ sentProposals e.trace, ∃ b, OwnProposal N p b
  reached : ∀ p ∈ sentProposals e.trace, Reached e.cs p.height p.round
  once : ∀ p ∈ sentProposals e.trace, ∀ p' ∈ sentProposals e.trace, p.height = p'.height →
    p.round = p'.round → p = p'

theorem Proposes.ownProposal {block : ThreadBlock} (h : Proposes N P e e' block) :
    OwnProposal N (newProposal N e' block) block where
  carries := rfl
  proposerDid := rfl
  proposer := by
    obtain ⟨did, hdid, heq⟩ := Option.map_eq_some_iff.mp h.proposer
    rw [← of_decide_eq_true heq]
    exact hdid
  own := h.own

/-- A new proposal is for a height and round that had not been reached, or is the first. -/
theorem Proposer.new (hp : Proposer N e) (hprop : ∀ b, e.proposal = some b → b.height = e.cs.height)
    (hadv : P.advance e.cs → e.cs.round ≠ Int32.maxValue) (henters : Enters P e e') :
    sentProposals e.trace = [] ∨ ¬Reached e.cs e'.cs.height e'.cs.round := by
  cases henters with
  | start hun _ _ => exact .inl (hp.unstarted hun)
  | round _ hlater hcs =>
    rw [hcs]
    refine .inr ?_
    rintro (hlt | ⟨-, hle⟩)
    · exact lt_irrefl _ hlt
    · rcases hlater with hlt | ⟨rfl, ha⟩
      · exact absurd (Int32.lt_iff_toInt_lt.mp hlt) hle.not_gt
      · have hnext := toInt_add_one (hadv ha)
        change (e.cs.round + 1).toInt ≤ e.cs.round.toInt at hle
        omega
  | height _ hblock hcs =>
    rw [hcs, hprop _ hblock]
    refine .inr ?_
    rintro (hlt | ⟨heq, -⟩)
    · exact absurd hlt (Int.lt_succ _).not_gt
    · exact absurd heq (Int.lt_succ _).ne'

theorem Proposer.act (hp : Proposer N e) (hprop : ∀ b, e.proposal = some b → b.height = e.cs.height)
    (hadv : P.advance e.cs → e.cs.round ≠ Int32.maxValue) (hact : Act N env P e e') :
    Proposer N e' := by
  have hle := hact.deed.moves.le hprop hadv
  have hun : e'.started = false → e.started = false := by
    intro h
    by_contra hst
    rw [hact.deed.started (Bool.eq_true_of_not_eq_false hst)] at h
    cases h
  rcases hact.deed.proposals with h | ⟨block, h⟩
  · refine ⟨fun hst => h ▸ hp.unstarted (hun hst), h ▸ hp.own, ?_, h ▸ hp.once⟩
    intro p hmem
    exact (hp.reached p (h ▸ hmem)).mono hle
  · have hnew := hp.new hprop hadv h.enters
    have hother : ∀ p ∈ sentProposals e.trace, p.height = e'.cs.height →
        p.round ≠ e'.cs.round := by
      intro p hmem hh hr
      rcases hnew with hnil | hnot
      · rw [hnil] at hmem
        exact absurd hmem List.not_mem_nil
      · exact hnot (hh ▸ hr ▸ hp.reached p hmem)
    refine ⟨?_, ?_, ?_, ?_⟩
    · intro hst
      cases h.enters with
      | start _ hst' _ => exact absurd (hst.symm.trans hst') Bool.false_ne_true
      | round hst' _ _ | height hst' _ _ =>
        exact absurd (hst.symm.trans (hact.deed.started hst')) Bool.false_ne_true
    · intro p hmem
      rw [h.sent] at hmem
      rcases List.mem_append.mp hmem with hmem | hmem
      · exact hp.own p hmem
      · rw [List.mem_singleton.mp hmem]
        exact ⟨block, h.ownProposal⟩
    · intro p hmem
      rw [h.sent] at hmem
      rcases List.mem_append.mp hmem with hmem | hmem
      · exact (hp.reached p hmem).mono hle
      · rw [List.mem_singleton.mp hmem]
        exact .inr ⟨rfl, le_rfl⟩
    · intro p hmem p' hmem' hh hr
      rw [h.sent] at hmem hmem'
      rcases List.mem_append.mp hmem with hmem | hmem <;>
        rcases List.mem_append.mp hmem' with hmem' | hmem'
      · exact hp.once p hmem p' hmem' hh hr
      · rw [List.mem_singleton.mp hmem'] at hh hr
        exact absurd hr (hother p hmem hh)
      · rw [List.mem_singleton.mp hmem] at hh hr
        exact absurd hr.symm (hother p' hmem' hh.symm)
      · rw [List.mem_singleton.mp hmem, List.mem_singleton.mp hmem']

/-! ## The group -/

namespace Group

variable (G : Group) (S : Cluster)

/-- A replica that runs the code has proposed `block` at a height and round. -/
def Proposed (height : Int) (round : Int32) (block : ThreadBlock) : Prop :=
  ∃ did p, G.Correct did ∧ p ∈ sentProposals (S did).trace ∧ p.height = height ∧ p.round = round ∧
    p.block = some block

/-- A message that is delivered has been broadcast by a replica that runs the code. -/
def Delivered (a : Action) : Prop := ∀ msg, a.event = .inbound msg →
  ∃ did, G.Correct did ∧ msg ∈ broadcasts (S did).trace

/-- No two of the texts hashed for the proposed blocks have the same SHA-256 sum. -/
def CollisionFree : Prop := ∀ ⦃h r b h' r' b'⦄, G.Proposed S h r b → G.Proposed S h' r' b' →
  Sha256.sum256 (bytes (rawBlock b)) = Sha256.sum256 (bytes (rawBlock b')) →
    rawBlock b = rawBlock b'

/-- What is known of a payload that was delivered. -/
def Known (p : Payload) : Prop := ∀ prop, p = .proposal prop →
  ∃ did, G.Correct did ∧ prop ∈ sentProposals (S did).trace

/-- What backs the lock and the valid value of a replica. -/
structure Locks (e : Backend) : Prop where
  locked : 0 ≤ e.cs.lockedRound → G.Voted S .prevote e.cs.height e.cs.lockedRound e.cs.lockedHash
  notNil : 0 ≤ e.cs.lockedRound → e.cs.lockedHash ≠ ""
  valid : 0 ≤ e.cs.validRound → G.Voted S .prevote e.cs.height e.cs.validRound e.cs.validHash

/-- A block is one that was proposed at a height, up to the time of its commit. -/
def FromProposal (height : Int) (b : ThreadBlock) : Prop :=
  ∃ r b₀, G.Proposed S height r b₀ ∧ b = { b₀ with committedAt := b.committedAt }

/-- What holds of replica `did` in the runs in which every message is a replica's own. -/
structure Honest (did : String) (e : Backend) : Prop where
  proposer : Proposer (G.node did) e
  locks : G.Locks S e
  polRound : ∀ p ∈ sentProposals e.trace, 0 ≤ p.polRound →
    ∃ H, H ≠ "" ∧ G.Voted S .prevote p.height p.polRound H
  prevoted : ∀ v ∈ sentVotes e.trace, v.type = .prevote → v.blockHash ≠ "" →
    ∃ b, G.Proposed S v.height v.round b ∧ b.blockHash = v.blockHash
  proposal : ∀ b, e.proposal = some b → G.FromProposal S e.cs.height b
  committed : ∀ h b, (h, b) ∈ commits e.trace → G.FromProposal S h b

/-- The invariant of those runs. -/
def AllHonest : Prop := ∀ did, G.Correct did → G.Honest S did (S did)

variable {G S}

/-! ### What has been proposed -/

theorem Proposed.own (hH : G.AllHonest S) {h : Int}
    (hp : G.Proposed S h r b) : ∃ did p, G.Correct did ∧ p ∈ sentProposals (S did).trace ∧
      p.height = h ∧ p.round = r ∧ OwnProposal (G.node did) p b := by
  obtain ⟨did, p, hc, hmem, hh, hr, hb⟩ := hp
  obtain ⟨b', hown⟩ := (hH did hc).proposer.own p hmem
  obtain rfl := Option.some.inj (hown.carries.symm.trans hb)
  exact ⟨did, p, hc, hmem, hh, hr, hown⟩

/-- Blocks of one hash were proposed at one height and round. -/
theorem Proposed.position (hH : G.AllHonest S) (hcf : G.CollisionFree S) {h h' : Int} {r' : Int32}
    {b' : ThreadBlock} (hp : G.Proposed S h r b) (hp' : G.Proposed S h' r' b')
    (heq : b.blockHash = b'.blockHash) : h = h' ∧ r = r' := by
  obtain ⟨did, p, -, -, rfl, rfl, ho⟩ := hp.own hH
  obtain ⟨did', p', -, -, rfl, rfl, ho'⟩ := hp'.own hH
  rw [ho.own.blockHash, ho'.own.blockHash, computeBlockHash_eq_iff] at heq
  have hraw := hcf hp hp' heq
  have hthread : b.threadId = b'.threadId := ho.own.threadId.trans ho'.own.threadId.symm
  obtain ⟨hh, hr⟩ := rawBlock_inj hthread hraw
  exact ⟨ho.own.height.symm.trans (hh.trans ho'.own.height),
    ho.own.round.symm.trans (hr.trans ho'.own.round)⟩

/-- **The hash determines the block.** -/
theorem Proposed.block_eq (hH : G.AllHonest S) (hcf : G.CollisionFree S) {h h' : Int} {r' : Int32}
    {b' : ThreadBlock} (hp : G.Proposed S h r b) (hp' : G.Proposed S h' r' b')
    (heq : b.blockHash = b'.blockHash) : b = b' := by
  obtain ⟨rfl, rfl⟩ := hp.position hH hcf hp' heq
  obtain ⟨did, p, hc, hmem, hh, hr, ho⟩ := hp.own hH
  obtain ⟨did', p', -, hmem', hh', hr', ho'⟩ := hp'.own hH
  -- A height and round have one proposer, and it proposed once.
  have hdid : did = did' := by
    have hat : proposerAt G.thread p.height p.round = some did := ho.proposer
    have hat' : proposerAt G.thread p'.height p'.round = some did' := ho'.proposer
    rw [hh, hr] at hat
    rw [hh', hr', hat] at hat'
    exact Option.some.inj hat'
  subst hdid
  obtain rfl := (hH did hc).proposer.once p hmem p' hmem' (hh.trans hh'.symm) (hr.trans hr'.symm)
  exact Option.some.inj (ho.carries.symm.trans ho'.carries)

/-! ### The assumptions of the locking protocol hold -/

theorem Voted.proposed (hH : G.AllHonest S) {h : Int} {H : String}
    (hv : G.Voted S .prevote h r H) (hne : H ≠ "") : ∃ b, G.Proposed S h r b ∧ b.blockHash = H := by
  obtain ⟨did, hm, hc, v, hmem, rfl, rfl, hty, rfl⟩ := hv.exists_one
  exact (hH did ⟨List.mem_toFinset.mp hm, hc⟩).prevoted v hmem hty hne

theorem Delivered.known (hd : G.Delivered S a) :
    ∀ msg, a.event = .inbound msg → G.Known S msg.payload := by
  rintro ⟨t, payload⟩ hmsg prop rfl
  obtain ⟨did, hc, hb⟩ := hd _ hmsg
  exact ⟨did, hc, mem_sentProposals_of_broadcasts hb⟩

theorem Delivered.authentic (hH : G.AllHonest S) (hI : G.Inv S) (hd : G.Delivered S a) :
    G.Authentic S a := by
  rintro ⟨t, payload⟩ hmsg
  obtain ⟨did, hc, hb⟩ := hd _ hmsg
  cases payload with
  | vote v =>
    refine unforged_of_broadcast hb ?_
    exact congrArg some ((hI.sane did hc).sent v (mem_sentVotes_of_broadcasts hb)).2
  | proposal p =>
    obtain ⟨b, ho⟩ := (hH did hc).proposer.own p (mem_sentProposals_of_broadcasts hb)
    exact unforged_of_broadcast hb (congrArg some ho.proposerDid)
  | committedBlock b => trivial

/-- **An honest proposal is safe.** -/
theorem AllHonest.safeProposal (hH : G.AllHonest S) (hcf : G.CollisionFree S)
    (hc : G.Correct did) {prop : Proposal} {block : ThreadBlock} (hknown : G.Known S (.proposal prop))
    (hok : ProposalOk (G.node did) (S did) prop block) :
    G.SafeProposal S (S did).cs prop block := by
  obtain ⟨did', hc', hmem⟩ := hknown prop rfl
  obtain ⟨b, ho⟩ := (hH did' hc').proposer.own prop hmem
  obtain rfl := Option.some.inj (ho.carries.symm.trans hok.carries)
  refine ⟨ho.own.height, fun hl hs => ?_⟩
  have hlocked : 0 ≤ (S did).cs.lockedRound := (of_decide_eq_true hl).1
  have hlater : (S did).cs.lockedRound < prop.polRound := of_decide_eq_true hs
  obtain ⟨H, hne, hv⟩ := (hH did' hc').polRound prop hmem
    (Int32.le_trans hlocked (Int32.le_of_lt hlater))
  rw [hok.height] at hv
  refine ⟨H, hne, ?_, hv⟩
  -- Were it the locked block, that block would have been proposed in two rounds.
  rintro rfl
  obtain ⟨b₁, hb₁, heq₁⟩ := Voted.proposed hH ((hH did hc).locks.locked hlocked) hne
  obtain ⟨b₂, hb₂, heq₂⟩ := Voted.proposed hH hv hne
  obtain ⟨-, hr⟩ := hb₁.position hH hcf hb₂ (heq₁.trans heq₂.symm)
  rw [hr] at hlater
  exact Int32.lt_irrefl hlater

theorem AllHonest.safe (hH : G.AllHonest S) (hcf : G.CollisionFree S) (hc : G.Correct a.did)
    (hd : G.Delivered S a) (hr : InRange (S a.did) a.env a.event) : G.Safe S a where
  proposal := by
    intro msg prop block hmsg hp hok
    exact hH.safeProposal hcf hc (hp ▸ hd.known msg hmsg) hok
  round := hr

/-! ### One act -/

section Act

variable {S' : Cluster} (hvotes : ∀ did, sentVotes (S did).trace ⊆ sentVotes (S' did).trace)
  (hprops : ∀ did, sentProposals (S did).trace ⊆ sentProposals (S' did).trace)

include hprops in
theorem Proposed.mono {h : Int} (hp : G.Proposed S h r b) : G.Proposed S' h r b := by
  obtain ⟨did, p, hc, hmem, hrest⟩ := hp
  exact ⟨did, p, hc, hprops did hmem, hrest⟩

include hprops in
theorem FromProposal.mono {h : Int} (hp : G.FromProposal S h b) : G.FromProposal S' h b := by
  obtain ⟨r, b₀, hp, heq⟩ := hp
  exact ⟨r, b₀, hp.mono hprops, heq⟩

include hprops in
theorem CollisionFree.of_mono (hcf : G.CollisionFree S') : G.CollisionFree S :=
  fun _ _ _ _ _ _ hp hp' => hcf (hp.mono hprops) (hp'.mono hprops)

include hvotes in
theorem Locks.mono (hl : G.Locks S e) : G.Locks S' e :=
  ⟨fun h => (hl.locked h).mono hvotes, hl.notNil, fun h => (hl.valid h).mono hvotes⟩

theorem Locks.act (hl : G.Locks S e)
    (hE : G.Evidence S e) (hm : Moves (G.node did) env P e e') : G.Locks S e' := by
  have hneg : ¬(0 : Int32) ≤ -1 := by decide
  cases hm with
  | stay hcs _ | stamp _ hcs _ =>
    refine ⟨?_, ?_, ?_⟩ <;> rw [hcs]
    exacts [hl.locked, hl.notNil, hl.valid]
  | accept _ _ hcs _ | prevoteNil _ hcs _ | precommitNil _ hcs _ | nextRound _ _ hcs _
    | skip _ hcs _ =>
      refine ⟨?_, ?_, ?_⟩ <;> rw [hcs]
      exacts [hl.locked, hl.notNil, hl.valid]
  | unlock _ _ _ _ hcs _ =>
    refine ⟨?_, ?_, ?_⟩ <;> rw [hcs]
    exacts [fun h => absurd h hneg, fun h => absurd h hneg, hl.valid]
  | lock _ hw hn hcs _ =>
    refine ⟨?_, ?_, ?_⟩ <;> rw [hcs]
    exacts [fun _ => hE.voted hw, fun _ => hn, fun _ => hE.voted hw]
  | commit _ hcs _ =>
    refine ⟨?_, ?_, ?_⟩ <;> rw [hcs] <;> exact fun h => absurd h hneg

include hvotes hprops in
theorem Honest.mono (h : G.Honest S did e) : G.Honest S' did e where
  proposer := h.proposer
  locks := h.locks.mono hvotes
  polRound := by
    intro p hp hpol
    obtain ⟨H, hne, hv⟩ := h.polRound p hp hpol
    exact ⟨H, hne, hv.mono hvotes⟩
  prevoted := by
    intro v hv hty hne
    obtain ⟨b, hb, heq⟩ := h.prevoted v hv hty hne
    exact ⟨b, hb.mono hprops, heq⟩
  proposal b hb := (h.proposal b hb).mono hprops
  committed h' b hb := (h.committed h' b hb).mono hprops

end Act

theorem sentProposals_update (hact : Act (G.node p) env P (S p) e') (did : String) :
    sentProposals (S did).trace ⊆ sentProposals (Function.update S p e' did).trace := by
  by_cases hd : did = p
  · subst hd
    rw [Function.update_self]
    rcases hact.deed.proposals with h | ⟨block, h⟩
    · rw [h]
      exact List.Subset.refl _
    · rw [h.sent]
      exact List.subset_append_left _ _
  · rw [Function.update_of_ne hd]
    exact List.Subset.refl _

/-- The proof-of-lock round of a proposal is the valid round, if there is a valid value. -/
theorem polRound_eq (h : 0 ≤ polRound e) :
    polRound e = e.cs.validRound ∧ 0 ≤ e.cs.validRound ∧ e.cs.validHash ≠ "" := by
  unfold polRound at *
  split at h
  · rename_i hv
    rw [if_pos hv]
    exact ⟨rfl, hv⟩
  · exact absurd h (by decide)

section Act

variable {did : String} {env : Env} {P : Proviso} {e e' : Backend} (h : G.Honest S did e)
  (hact : Act (G.node did) env P e e')
  (hproposed : ∀ prop block, ProposalOk (G.node did) e prop block → P.heard e (.proposal prop) →
    G.Proposed S e.cs.height e.cs.round block)

include h hact

theorem Honest.polRound_act (hl : G.Locks S e') : ∀ p ∈ sentProposals e'.trace, 0 ≤ p.polRound →
    ∃ H, H ≠ "" ∧ G.Voted S .prevote p.height p.polRound H := by
  intro p hp hpol
  rcases hact.deed.proposals with hs | ⟨block, hs⟩
  · exact h.polRound p (hs ▸ hp) hpol
  · rw [hs.sent] at hp
    rcases List.mem_append.mp hp with hp | hp
    · exact h.polRound p hp hpol
    · obtain rfl := List.mem_singleton.mp hp
      obtain ⟨heq, hvalid, hne⟩ := polRound_eq hpol
      refine ⟨e'.cs.validHash, hne, ?_⟩
      change G.Voted S .prevote e'.cs.height (Tendermint.polRound e') _
      rw [heq]
      exact hl.valid hvalid

theorem Honest.committed_act : ∀ h' b, (h', b) ∈ commits e'.trace → G.FromProposal S h' b := by
  intro h' b hb
  rcases hact.deed.commits_cases with hc | ⟨block, hok, hc⟩
  · exact h.committed h' b (hc ▸ hb)
  · rw [hc] at hb
    rcases List.mem_append.mp hb with hb | hb
    · exact h.committed h' b hb
    · obtain ⟨rfl, rfl⟩ := Prod.mk.inj (List.mem_singleton.mp hb)
      obtain ⟨r, b₀, hb₀, heq⟩ := h.proposal block hok.proposal
      exact ⟨r, b₀, hb₀, by rw [stamped, heq]⟩

include hproposed

theorem Honest.prevoted_act : ∀ v ∈ sentVotes e'.trace, v.type = .prevote → v.blockHash ≠ "" →
    ∃ b, G.Proposed S v.height v.round b ∧ b.blockHash = v.blockHash := by
  intro v hv hty hne
  rcases hact.deed.voting with hs | ⟨ty, H, hcast, hs⟩
  · exact h.prevoted v (hs.sent ▸ hv) hty hne
  · rw [hs.sent] at hv
    rcases List.mem_append.mp hv with hv | hv
    · exact h.prevoted v hv hty hne
    · obtain rfl := List.mem_singleton.mp hv
      cases hcast with
      | proposal hok hheard => exact ⟨_, hproposed _ _ hok hheard, rfl⟩
      | prevoteNil _ => exact absurd rfl hne
      | precommitNil _ | polka _ _ _ => cases hty

theorem Honest.proposal_act : ∀ b, e'.proposal = some b → G.FromProposal S e'.cs.height b := by
  intro b hb
  cases hact.deed.moves with
  | stay hcs hprop | prevoteNil _ hcs hprop | precommitNil _ hcs hprop | lock _ _ _ hcs hprop
    | nextRound _ _ hcs hprop | skip _ hcs hprop =>
      rw [hcs]
      exact h.proposal b (hprop ▸ hb)
  | accept hok hheard hcs hprop | unlock hok hheard _ _ hcs hprop =>
    rw [hcs]
    obtain rfl := Option.some.inj (hprop.symm.trans hb)
    exact ⟨_, _, hproposed _ _ hok hheard, rfl⟩
  | stamp hok hcs hprop =>
    rw [hcs]
    obtain rfl := Option.some.inj (hprop.symm.trans hb)
    obtain ⟨r, b₀, hb₀, heq⟩ := h.proposal _ hok.proposal
    exact ⟨r, b₀, hb₀, by rw [stamped, heq]⟩
  | commit _ _ hprop =>
    rw [hprop] at hb
    cases hb

/-- **One act keeps the invariant.**  `S` is the group with the votes and proposals of the act
already in it. -/
theorem Honest.act (hE : G.Evidence S e) (hs : Sane (G.node did) e)
    (hadv : P.advance e.cs → e.cs.round ≠ Int32.maxValue) : G.Honest S did e' where
  proposer := h.proposer.act hs.proposal hadv hact
  locks := h.locks.act hE hact.deed.moves
  polRound := h.polRound_act hact (h.locks.act hE hact.deed.moves)
  prevoted := h.prevoted_act hact hproposed
  proposal := h.proposal_act hact hproposed
  committed := h.committed_act hact

end Act

theorem AllHonest.act {S₀ : Cluster} (hH : G.AllHonest S) (hI : G.Inv S) (hp : G.Correct p)
    (hprops₀ : ∀ did, sentProposals (S₀ did).trace ⊆ sentProposals (S did).trace)
    (hact : Act (G.node p) env (G.proviso S₀ (G.Known S₀) p) (S p) e') :
    G.AllHonest (Function.update S p e') := by
  have hvotes := sentVotes_update hact
  have hprops := sentProposals_update hact
  refine forall_update (fun did hd => (hH did hd).mono hvotes hprops) ?_
  refine ((hH p hp).mono hvotes hprops).act hact ?_ ?_ (hI.sane p hp) id
  · intro prop block hok hheard
    obtain ⟨did, hc, hmem⟩ := hheard.2.1 prop rfl
    exact ⟨did, prop, hc, hprops did (hprops₀ did hmem), hok.height, hok.round, hok.carries⟩
  · intro v hv ht
    exact (hI.evidence p hp v hv ht).mono hvotes

/-! ### Runs -/

theorem AllHonest.acts (hp : G.Correct p) (hI : G.Inv S) (hH : G.AllHonest S)
    (hacts : Acts (G.node p) env (G.proviso S (G.Known S) p) (S p) e') :
    G.AllHonest (Function.update S p e') ∧
      ∀ did, sentProposals (S did).trace ⊆ sentProposals (Function.update S p e' did).trace := by
  induction hacts with
  | refl => simpa using hH
  | @tail e₁ e₂ hacts hact ih =>
    obtain ⟨hH₁, hprops⟩ := ih
    have hact' : Act (G.node p) env (G.proviso S (G.Known S) p) (Function.update S p e₁ p) e₂ := by
      rwa [Function.update_self]
    have hH₂ := hH₁.act (hI.acts hp hacts).1 hp hprops hact'
    have hprops' := sentProposals_update hact'
    rw [Function.update_idem] at hH₂ hprops'
    exact ⟨hH₂, fun did => List.Subset.trans (hprops did) (hprops' did)⟩

/-- What has been proposed stays proposed, whatever the step is. -/
theorem sentProposals_after (a : Action) (did : String) :
    sentProposals (S did).trace ⊆ sentProposals (Function.update S a.did (G.after S a) did).trace := by
  have hacts : Acts (G.node a.did) a.env ⟨fun _ _ => True, fun _ => True⟩ (S a.did) (G.after S a) :=
    step_acts a.event (fun _ _ => trivial) fun _ _ _ => trivial
  generalize G.after S a = e' at hacts ⊢
  induction hacts with
  | refl =>
    rw [Function.update_eq_self]
    exact List.Subset.refl _
  | @tail e₁ e₂ _ hact ih =>
    have hact' : Act (G.node a.did) a.env ⟨fun _ _ => True, fun _ => True⟩
        (Function.update S a.did e₁ a.did) e₂ := by
      rwa [Function.update_self]
    have hprops := sentProposals_update hact' did
    rw [Function.update_idem] at hprops
    exact List.Subset.trans ih hprops

theorem Initial.allHonest (h : G.Initial S) : G.AllHonest S := by
  intro did _
  obtain ⟨s, -, heq⟩ := h.eq did
  have hneg : ¬(0 : Int32) ≤ -1 := by decide
  rw [heq]
  refine ⟨⟨fun _ => rfl, ?_, ?_, ?_⟩, ⟨fun h => absurd h hneg, fun h => absurd h hneg,
    fun h => absurd h hneg⟩, ?_, ?_, ?_, ?_⟩
  · exact fun p hp => absurd hp List.not_mem_nil
  · exact fun p hp => absurd hp List.not_mem_nil
  · exact fun p hp => absurd hp List.not_mem_nil
  · exact fun p hp => absurd hp List.not_mem_nil
  · exact fun v hv => absurd hv List.not_mem_nil
  · rintro b ⟨⟩
  · exact fun h b hb => absurd hb List.not_mem_nil

/-- **The invariants hold along every run in which every message is a replica's own.** -/
theorem AllHonest.run {S₀ : Cluster} (h₀ : G.Initial S₀)
    (hrun : G.Run (fun S a => G.Delivered S a ∧ InRange (S a.did) a.env a.event) S₀ S) (hcf : G.CollisionFree S) :
    G.Inv S ∧ G.AllHonest S := by
  induction hrun with
  | refl => exact ⟨h₀.inv, h₀.allHonest⟩
  | tail _ hstep ih =>
    obtain ⟨a, hc, ⟨hd, hr⟩, rfl⟩ := hstep
    have hcf' := hcf.of_mono (sentProposals_after a)
    obtain ⟨hI, hH⟩ := ih hcf'
    have hacts := after_acts (hd.authentic hH hI) (hH.safe hcf' hc hd hr) hd.known
    exact ⟨(hI.acts hc hacts).1, (hH.acts hc hI hacts).1⟩

/-- Blocks committed at one height are one block, up to the time of the commit. -/
theorem AllHonest.agreement (hH : G.AllHonest S) (hI : G.Inv S) (hcf : G.CollisionFree S)
    {did' : String} (hd : G.Correct did) (hd' : G.Correct did') {h : Int} {b' : ThreadBlock}
    (hb : (h, b) ∈ commits (S did).trace) (hb' : (h, b') ∈ commits (S did').trace) :
    b = { b' with committedAt := b.committedAt } := by
  have hhash := hI.agreement hd hd' hb hb'
  obtain ⟨r, b₀, hp, heq⟩ := (hH did hd).committed h b hb
  obtain ⟨r', b₀', hp', heq'⟩ := (hH did' hd').committed h b' hb'
  have hhash₀ : b₀.blockHash = b₀'.blockHash := by
    rw [heq, heq'] at hhash
    exact hhash
  obtain rfl := hp.block_eq hH hcf hp' hhash₀
  rw [heq']
  exact heq

end Group

end MoltMesh.Tendermint

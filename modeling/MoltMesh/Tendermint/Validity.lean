import MoltMesh.Tendermint.Trail
import MoltMesh.Tendermint.Agreement

/-!
# Validity of the blocks a replica stores

`handleProposal` checks the header of a proposal and nothing of the block in it,
and `commitBlock` stores that block.  If the blocks of the accepted proposals are
valid (`ValidStep`), the blocks a replica stores are a hash chain from height 1 on,
its height is one more than their number, and nothing it does panics.
-/

namespace MoltMesh

open MoltMesh.Lib Pb

/-- The parent hash a block at a height must have: that of the block stored below it, and none at
height 1. -/
def Store.parentHashAt (s : Store) (threadID : String) (height : Int) : Option String :=
  if height = 1 then some "" else (s.getBlock threadID (height - 1)).map ThreadBlock.blockHash

theorem Store.getBlock_saveBlock_self (s : Store) (b : ThreadBlock) (hb : 0 < b.committedAt) :
    ((s.saveBlock b).getBlock b.threadId b.height).map ThreadBlock.blockHash = some b.blockHash := by
  have hkey := Table.lookup_insertOrReplace_self s.blocks (BlockRow.ofBlock b)
  change (s.saveBlock b).blocks.lookup (b.threadId, b.height) = _ at hkey
  have hpos : 0 < (BlockRow.ofBlock b).committedAt := hb
  rw [getBlock, hkey]
  dsimp only
  rw [if_pos hpos]
  rfl

theorem Store.getBlock_saveBlock_of_ne (s : Store) {b : ThreadBlock} {t : String} {h : Int}
    (hne : h ≠ b.height) : (s.saveBlock b).getBlock t h = s.getBlock t h := by
  have hkey : (s.saveBlock b).blocks.lookup (t, h) = s.blocks.lookup (t, h) := by
    refine Table.lookup_insertOrReplace_of_ne ?_
    exact fun heq => hne (Prod.mk.inj heq).2
  rw [getBlock, getBlock, hkey]

theorem Store.getBlock_congr {s s' : Store} (hs : s'.blocks = s.blocks) (t : String) (h : Int) :
    s'.getBlock t h = s.getBlock t h := by
  rw [getBlock, getBlock, hs]

theorem Store.parentHashAt_congr {s s' : Store} (hs : s'.blocks = s.blocks) (t : String) (h : Int) :
    s'.parentHashAt t h = s.parentHashAt t h := by
  rw [parentHashAt, parentHashAt, getBlock_congr hs]

end MoltMesh

namespace MoltMesh.Tendermint

open MoltMesh.Lib Pb

/-- The blocks stored in a trace. -/
def savedBlocks (t : List Effect) : List ThreadBlock :=
  t.filterMap fun
    | .write (.saveBlock b) => some b
    | _ => none

/-- A block that extends the stored chain of a thread at a height. -/
structure ValidBlock (N : Node) (s : Store) (h : Int) (b : ThreadBlock) : Prop where
  threadId : b.threadId = N.thread.id
  height : b.height = h
  parentHash : s.parentHashAt N.thread.id h = some b.parentHash
  blockHash : b.blockHash = computeBlockHash b

/-- The condition on a step: the block of a proposal that passes the checks of `handleProposal`
extends the chain, and the round stays in range. -/
structure ValidStep (N : Node) (e : Backend) (env : Env) (ev : Event) : Prop where
  proposal : ∀ msg prop block, ev = .inbound msg → msg.payload = .proposal prop →
    ProposalOk N e prop block → ValidBlock N e.store prop.height block
  round : InRange e env ev

/-- A validator set that `proposerAt` can index and whose keys `ed25519.Verify` accepts. -/
structure Usable (T : Thread) : Prop where
  nonempty : T.replicaDids ≠ []
  keys : ∀ did ∈ T.replicaDids, ∀ pub, Identity.pubKeyFromDID did = .ok pub →
    pub.length = Identity.publicKeySize

/-! ## The chain -/

/-- What the steps of a replica keep when they are valid. -/
structure Chain (N : Node) (e : Backend) : Prop where
  sane : Group.Sane N e
  height : e.cs.height = (savedBlocks e.trace).length + 1
  proposal : ∀ b, e.proposal = some b → ValidBlock N e.store e.cs.height b
  valid : ∀ (i : Nat) b, (savedBlocks e.trace)[i]? = some b → ValidBlock N e.store (i + 1) b
  stored : ∀ (i : Nat) b, (savedBlocks e.trace)[i]? = some b →
    (e.store.getBlock N.thread.id (i + 1)).map ThreadBlock.blockHash = some b.blockHash
  called : ∀ b ∈ savedBlocks e.trace, (b.height, b) ∈ commits e.trace

/-- The condition on a step as a proviso of its acts. -/
def validProviso (N : Node) : Proviso where
  heard e p := ∀ prop block, p = .proposal prop → ProposalOk N e prop block →
    ValidBlock N e.store prop.height block
  advance cs := cs.round ≠ Int32.maxValue

variable {N : Node} {env : Env} {P : Proviso} {e e' : Backend} {δ : List Effect} {s : Store}
  {block b : ThreadBlock}

@[simp] theorem savedBlocks_append (t δ : List Effect) :
    savedBlocks (t ++ δ) = savedBlocks t ++ savedBlocks δ := List.filterMap_append

theorem savedBlocks_plain {ws : List Write} (h : ∀ w ∈ ws, Plain w) :
    savedBlocks (ws.map .write) = [] := by
  refine List.filterMap_eq_nil_iff.mpr ?_
  intro eff heff
  obtain ⟨w, hw, rfl⟩ := List.mem_map.mp heff
  cases w with
  | saveVote _ | saveConsensusState _ | deletePending _ | enqueueEntry _ _ => rfl
  | saveBlock b => exact absurd (h _ hw) id

theorem savedBlocks_ran {w : Write} (h : ∀ b, w ≠ .saveBlock b) : savedBlocks (ran env w) = [] := by
  unfold ran
  split
  · rfl
  · cases w with
    | saveVote _ | saveConsensusState _ | deletePending _ | enqueueEntry _ _ => rfl
    | saveBlock b => exact absurd rfl (h b)

theorem savedBlocks_voteTrail (ty : VoteType) (H : String) (cs : ConsensusState) :
    savedBlocks (voteTrail N env e ty H cs) = [] := by
  unfold voteTrail
  rw [savedBlocks_append, savedBlocks_append, savedBlocks_ran fun _ => Write.noConfusion,
    savedBlocks_ran fun _ => Write.noConfusion]
  rfl

theorem ProposeTrail.savedBlocks (h : ProposeTrail N e δ) : savedBlocks δ = [] := by
  cases h with
  | none hp => exact savedBlocks_plain hp
  | proposal hp _ _ =>
    rw [savedBlocks_append, savedBlocks_plain hp]
    rfl

/-- The blocks of the store follow the trace. -/
theorem replay_blocks {t : String} (h : savedBlocks δ = []) : (replay t s δ).blocks = s.blocks := by
  induction δ generalizing s with
  | nil => rfl
  | cons eff δ ih =>
    rw [savedBlocks, List.filterMap_cons] at h
    change (replay t (eff.apply t s) δ).blocks = s.blocks
    cases eff with
    | write w =>
      cases w with
      | saveBlock b => cases h
      | saveVote _ | saveConsensusState _ | deletePending _ | enqueueEntry _ _ =>
        rw [ih h]
        rfl
    | broadcast _ | commit _ _ | unlock _ _ => exact ih h

/-- What an act does to the stored blocks. -/
inductive Saves (N : Node) (env : Env) (e e' : Backend) : Prop
  | none (saved : savedBlocks e'.trace = savedBlocks e.trace)
    (blocks : e'.store.blocks = e.store.blocks) (height : e'.cs.height = e.cs.height)
  | block {block : ThreadBlock} (ok : CommitOk N env e block)
    (saved : savedBlocks e'.trace = savedBlocks e.trace ++ [stamped env block])
    (blocks : e'.store.blocks = (e.store.saveBlock (stamped env block)).blocks)
    (called : (e.cs.height, stamped env block) ∈ commits e'.trace)
    (next : block.blockHash.utf8ByteSize < 8 ∨ e'.cs = .start (block.height + 1))

theorem Logged.saves_none (hlog : Logged N e e' δ) (hδ : savedBlocks δ = [])
    (hh : e'.cs.height = e.cs.height) : Saves N env e e' := by
  refine .none ?_ ?_ hh
  · rw [hlog.trace, savedBlocks_append, hδ, List.append_nil]
  · rw [hlog.store, replay_blocks hδ]

theorem Logged.saves_block (hok : CommitOk N env e block)
    (hlog : Logged N e e' ([.commit e.cs.height (stamped env block),
      .write (.saveBlock (stamped env block))] ++ δ)) (hδ : savedBlocks δ = [])
    (hnext : block.blockHash.utf8ByteSize < 8 ∨ e'.cs = .start (block.height + 1)) :
    Saves N env e e' := by
  refine .block hok ?_ ?_ ?_ hnext
  · rw [hlog.trace, savedBlocks_append, savedBlocks_append, hδ, List.append_nil]
    rfl
  · rw [hlog.store, replay_append, replay_blocks hδ]
    rfl
  · rw [hlog.trace, commits_append]
    exact List.mem_append_right _ List.mem_cons_self

theorem Act.saves (hact : Act N env P e e') : Saves N env e e' := by
  obtain ⟨δ, hlog, htrail⟩ := hact.trail
  cases htrail with
  | plain hp hcs => exact hlog.saves_none (savedBlocks_plain hp) (by rw [hcs])
  | prevote _ _ hcs | precommitNil _ hcs =>
    exact hlog.saves_none (savedBlocks_voteTrail _ _ _) (by rw [hcs])
  | precommit _ _ hcs =>
    exact hlog.saves_none (savedBlocks_voteTrail _ _ _) (by rw [hcs]; rfl)
  | unlock _ _ hcs =>
    refine hlog.saves_none ?_ (by rw [hcs])
    exact savedBlocks_voteTrail (N := N) (e := e) _ _ _
  | start _ _ hcs hp => exact hlog.saves_none hp.savedBlocks (by rw [hcs])
  | round _ _ hcs hp =>
    refine hlog.saves_none ?_ (by rw [hcs])
    rw [savedBlocks_append, savedBlocks_ran fun _ => Write.noConfusion, hp.savedBlocks]
    rfl
  | commitFails hok hcs => exact hlog.saves_none rfl (by rw [hcs])
  | commitPanics hok hshort hcs =>
    exact Logged.saves_block hok (by simpa using hlog) rfl (.inl hshort)
  | commit _ hok hcs hp =>
    rw [List.append_assoc] at hlog
    refine Logged.saves_block hok hlog ?_ (.inr hcs)
    rw [savedBlocks_append, savedBlocks_ran fun _ => Write.noConfusion, hp.savedBlocks]
    rfl

/-! ### One act -/

theorem ValidBlock.congr {s' : Store} (hs : s'.blocks = s.blocks) {h : Int}
    (hb : ValidBlock N s h b) : ValidBlock N s' h b :=
  ⟨hb.threadId, hb.height, Store.parentHashAt_congr hs _ _ ▸ hb.parentHash, hb.blockHash⟩

theorem ValidBlock.stamped {h : Int} (hb : ValidBlock N s h b) : ValidBlock N s h (stamped env b) :=
  ⟨hb.threadId, hb.height, hb.parentHash, hb.blockHash⟩

/-- Storing a block leaves alone what is at and below its height. -/
theorem ValidBlock.saveBlock {h : Int} {b' : ThreadBlock} (hb : ValidBlock N s h b)
    (hle : h ≤ b'.height) : ValidBlock N (s.saveBlock b') h b := by
  refine ⟨hb.threadId, hb.height, ?_, hb.blockHash⟩
  have hne : h - 1 ≠ b'.height := by omega
  rw [Store.parentHashAt, Store.getBlock_saveBlock_of_ne s hne]
  exact hb.parentHash

/-- The proposal a replica holds after an act is one for the height before it. -/
theorem Chain.proposal_act (hc : Chain N e) (hact : Act N env (validProviso N) e e') :
    ∀ b, e'.proposal = some b → ValidBlock N e.store e.cs.height b := by
  intro b hb
  cases hact.deed.moves with
  | stay _ hp | prevoteNil _ _ hp | precommitNil _ _ hp | lock _ _ _ _ hp | nextRound _ _ _ hp
    | skip _ _ hp => exact hc.proposal b (hp ▸ hb)
  | accept hok hheard _ hp | unlock hok hheard _ _ _ hp =>
    obtain rfl := Option.some.inj (hp.symm.trans hb)
    have hv := hheard _ _ rfl hok
    rwa [hok.height] at hv
  | stamp hok _ hp =>
    obtain rfl := Option.some.inj (hp.symm.trans hb)
    exact (hc.proposal _ hok.proposal).stamped
  | commit _ _ hp =>
    rw [hp] at hb
    cases hb

/-- A replica that leaves its height holds no proposal. -/
theorem Moves.proposal_none (hm : Moves N env P e e') (hh : e'.cs.height ≠ e.cs.height) :
    e'.proposal = none := by
  cases hm with
  | stay hcs _ | accept _ _ hcs _ | unlock _ _ _ _ hcs _ | prevoteNil _ hcs _
    | precommitNil _ hcs _ | lock _ _ _ hcs _ | nextRound _ _ hcs _ | skip _ hcs _
    | stamp _ hcs _ =>
      rw [hcs] at hh
      exact absurd rfl hh
  | commit _ _ hp => exact hp

/-- A block a replica would commit has a hash of full length. -/
theorem Chain.not_short (hc : Chain N e) (hok : CommitOk N env e block) :
    ¬block.blockHash.utf8ByteSize < 8 := by
  rw [(hc.proposal _ hok.proposal).blockHash]
  exact (eight_le_utf8ByteSize_computeBlockHash block).not_gt

/-- **One act extends the chain or leaves it alone.** -/
theorem Chain.act (hc : Chain N e) (hact : Act N env (validProviso N) e e') : Chain N e' := by
  have hsane : Group.Sane N e' := by
    refine hc.sane.act ?_ id hact
    exact fun prop block hok hheard => (hheard prop block rfl hok).height
  have hcommits : commits e.trace ⊆ commits e'.trace := by
    obtain ⟨δ, hlog, -⟩ := hact.trail
    rw [hlog.trace, commits_append]
    exact List.subset_append_left _ _
  cases hact.saves with
  | none hsaved hblocks hh =>
    refine ⟨hsane, ?_, ?_, ?_, ?_, ?_⟩
    · rw [hsaved, hh]
      exact hc.height
    · intro b hb
      rw [hh]
      exact (hc.proposal_act hact b hb).congr hblocks
    · rw [hsaved]
      exact fun i b hb => (hc.valid i b hb).congr hblocks
    · rw [hsaved]
      intro i b hb
      rw [Store.getBlock_congr hblocks]
      exact hc.stored i b hb
    · rw [hsaved]
      exact fun b hb => hcommits (hc.called b hb)
  | @block block hok hsaved hblocks hcalled hnext =>
    have hcs := hnext.resolve_left (hc.not_short hok)
    have hv : ValidBlock N e.store e.cs.height (stamped env block) :=
      (hc.proposal _ hok.proposal).stamped
    have hheight : (stamped env block).height = (savedBlocks e.trace).length + 1 :=
      hv.height.trans hc.height
    -- The blocks below keep their places, and the new one is stored on top of them.
    have hbelow : ∀ (i : Nat) b, (savedBlocks e.trace)[i]? = some b →
        ((i : Int) + 1) < (stamped env block).height := by
      intro i b hb
      obtain ⟨hi, -⟩ := List.getElem?_eq_some_iff.mp hb
      omega
    have hcase : ∀ (i : Nat) b, (savedBlocks e'.trace)[i]? = some b →
        (savedBlocks e.trace)[i]? = some b ∨
          (i = (savedBlocks e.trace).length ∧ b = stamped env block) := by
      intro i b hb
      rw [hsaved] at hb
      rcases lt_trichotomy i (savedBlocks e.trace).length with hlt | heq | hgt
      · rw [List.getElem?_append_left hlt] at hb
        exact .inl hb
      · subst heq
        rw [List.getElem?_concat_length] at hb
        exact .inr ⟨rfl, (Option.some.inj hb).symm⟩
      · rw [List.getElem?_eq_none (by simp; omega)] at hb
        cases hb
    refine ⟨hsane, ?_, ?_, ?_, ?_, ?_⟩
    · rw [hsaved, hcs, List.length_append]
      have hb : block.height = (savedBlocks e.trace).length + 1 := hheight
      simp only [ConsensusState.start, hb, List.length_singleton]
      push_cast
      ring
    · intro b hb
      rw [hact.deed.moves.proposal_none ?_] at hb
      · cases hb
      · rw [hcs, (hc.proposal _ hok.proposal).height]
        exact (Int.lt_succ _).ne'
    · intro i b hb
      rcases hcase i b hb with hb | ⟨rfl, rfl⟩
      · exact ((hc.valid i b hb).saveBlock (hbelow i b hb).le).congr hblocks
      · rw [← hheight]
        rw [← hv.height] at hv
        exact (hv.saveBlock le_rfl).congr hblocks
    · intro i b hb
      rw [Store.getBlock_congr hblocks]
      rcases hcase i b hb with hb | ⟨rfl, rfl⟩
      · rw [Store.getBlock_saveBlock_of_ne _ (hbelow i b hb).ne]
        exact hc.stored i b hb
      · rw [← hheight, ← hv.threadId]
        exact Store.getBlock_saveBlock_self _ _ env.now_pos
    · intro b hb
      rw [hsaved] at hb
      rcases List.mem_append.mp hb with hb | hb
      · exact hcommits (hc.called b hb)
      · rw [List.mem_singleton.mp hb, hv.height]
        exact hcalled

/-! ## Nothing panics -/

/-- A call returns. -/
def Returns (x : Except Backend Backend) : Prop := ∃ e', x = .ok e'

theorem returns_ok (e : Backend) : Returns (.ok e) := ⟨e, rfl⟩

theorem proposerAt_isSome {T : Thread} (hT : T.replicaDids ≠ []) {h : Int} {r : Int32}
    (hpos : 0 ≤ h + r.toInt) : ∃ did ∈ T.replicaDids, proposerAt T h r = some did := by
  have hlen : 0 < T.replicaDids.length := List.length_pos_iff.mpr hT
  have hnonneg : 0 ≤ (h + r.toInt).tmod T.replicaDids.length := Int.tmod_nonneg _ hpos
  have hlt : (h + r.toInt).tmod T.replicaDids.length < T.replicaDids.length :=
    Int.tmod_lt_of_pos _ (by exact_mod_cast hlen)
  have hidx : ((h + r.toInt).tmod T.replicaDids.length).toNat < T.replicaDids.length := by omega
  refine ⟨_, List.getElem_mem hidx, ?_⟩
  have hcond : ¬(T.replicaDids.length = 0 ∨ (h + r.toInt).tmod T.replicaDids.length < 0) := by omega
  rw [proposerAt, if_neg hcond, List.getElem?_eq_getElem hidx]

theorem returns_enterPropose (hT : Usable N.thread) (hpos : 0 ≤ e.cs.height + e.cs.round.toInt) :
    Returns (enterPropose N env e) := by
  obtain ⟨did, -, hdid⟩ := proposerAt_isSome hT.nonempty hpos
  have hprop : isProposer N e = some (decide (did = N.id.did)) := by
    rw [isProposer, isValidProposer, hdid]
    rfl
  unfold enterPropose
  rw [hprop]
  cases decide (did = N.id.did) with
  | false => exact returns_ok _
  | true =>
    dsimp only
    split
    · exact returns_ok _
    · split <;> exact returns_ok _

theorem returns_proposeAndArm (hT : Usable N.thread)
    (hpos : 0 ≤ e.cs.height + e.cs.round.toInt) : Returns (proposeAndArm N env e) := by
  obtain ⟨e', he⟩ : Returns (enterPropose N env e) := returns_enterPropose hT hpos
  exact ⟨_, by rw [proposeAndArm, he]; rfl⟩

/-- Verifying the signature of a validator does not panic. -/
theorem verifySig_ne_none (hT : Usable N.thread) {did : String} (hdid : did ∈ N.thread.replicaDids)
    (data : List UInt8) (sig : String) : verifySig N.crypto did data sig ≠ none := by
  unfold verifySig
  cases hexDecode sig with
  | none => exact Option.some_ne_none _
  | some sigBytes =>
    dsimp only
    cases hpub : Identity.pubKeyFromDID did with
    | error err => exact Option.some_ne_none _
    | ok pub =>
      dsimp only
      rw [Identity.verifyWithPub, if_pos (hT.keys did hdid pub hpub)]
      exact Option.some_ne_none _

/-- What keeps a replica from panicking in its next call. -/
structure Ready (e : Backend) : Prop where
  height : 0 ≤ e.cs.height
  round : 0 ≤ e.cs.round.toInt
  proposal : ∀ b, e.proposal = some b → 0 ≤ b.height ∧ 8 ≤ b.blockHash.utf8ByteSize

theorem Chain.ready (hc : Chain N e) : Ready e where
  height := by
    rw [hc.height]
    positivity
  round := hc.sane.round
  proposal := by
    intro b hb
    have hv := hc.proposal b hb
    rw [hv.height, hv.blockHash, hc.height]
    exact ⟨by positivity, eight_le_utf8ByteSize_computeBlockHash b⟩

theorem Ready.congr (hr : Ready e) (hcs : e'.cs = e.cs) (hp : e'.proposal = e.proposal) : Ready e' :=
  ⟨hcs ▸ hr.height, hcs ▸ hr.round, hp ▸ hr.proposal⟩

theorem returns_handleProposal (hT : Usable N.thread) (hr : Ready e) (prop : Proposal) :
    Returns (handleProposal N env e prop) := by
  unfold handleProposal
  split
  · exact returns_ok _
  rename_i hpos
  obtain ⟨hheight, hround⟩ := not_or.mp hpos
  rw [not_not] at hheight hround
  split
  · exact returns_ok _
  obtain ⟨did, hmem, hdid⟩ := proposerAt_isSome hT.nonempty
    (h := prop.height) (r := prop.round) (by rw [hheight, hround]; exact add_nonneg hr.height hr.round)
  have hvalid : isValidProposer N.thread prop.proposerDid prop.height prop.round =
      some (decide (did = prop.proposerDid)) := by
    rw [isValidProposer, hdid]
    rfl
  rw [hvalid]
  by_cases heq : did = prop.proposerDid
  · subst heq
    rw [decide_eq_true rfl]
    dsimp only
    split
    · exact returns_ok _
    · split
      · rename_i hnone
        exact absurd hnone (verifySig_ne_none hT hmem _ _)
      · exact returns_ok _
      · exact returns_ok _
  · rw [decide_eq_false heq]
    exact returns_ok _

theorem returns_commitBlock (hT : Usable N.thread) (hh : 0 ≤ block.height)
    (hlen : 8 ≤ block.blockHash.utf8ByteSize) : Returns (commitBlock N env e block) := by
  unfold commitBlock
  dsimp only
  split
  · exact returns_ok _
  · rw [if_neg hlen.not_gt]
    refine returns_enterPropose hT ?_
    simp only [armPropose, enterHeight, saveState_cs, ConsensusState.start]
    have hzero : (0 : Int32).toInt = 0 := rfl
    omega

theorem returns_onPrecommit (hT : Usable N.thread) (hr : Ready e) (v : Vote) :
    Returns (onPrecommit N env e v) := by
  unfold onPrecommit
  split
  · exact returns_ok _
  dsimp only
  split
  · exact returns_ok _
  split
  · exact returns_ok _
  rename_i block hblock
  split
  · exact returns_ok _
  · exact returns_commitBlock hT (hr.proposal block hblock).1 (hr.proposal block hblock).2

theorem returns_checkFutureRoundSkip (hT : Usable N.thread) (hr : Ready e) {r : Int32}
    (hlt : e.cs.round < r) : Returns (checkFutureRoundSkip N env e r) := by
  unfold checkFutureRoundSkip
  dsimp only
  split
  · exact returns_ok _
  · refine returns_proposeAndArm hT ?_
    rw [enterRound, saveState_cs]
    simp only [flushFutureVotes_cs]
    exact add_nonneg hr.height (hr.round.trans (Int32.lt_iff_toInt_lt.mp hlt).le)

theorem returns_acceptVote (hT : Usable N.thread) (hr : Ready e) (v : Vote) :
    Returns (acceptVote N env e v) := by
  unfold acceptVote
  split
  · rename_i hlt
    refine returns_checkFutureRoundSkip hT (hr.congr (bufferFutureVote_cs v) ?_) ?_
    · unfold bufferFutureVote
      split <;> rfl
    · rwa [bufferFutureVote_cs]
  split
  · exact returns_ok _
  split
  · exact returns_ok _
  dsimp only
  split
  · exact returns_ok _
  · exact returns_onPrecommit hT (hr.congr (write_cs N env e _) (write_proposal N env e _)) v
  · exact returns_ok _

theorem returns_handleVote (hT : Usable N.thread) (hr : Ready e) (v : Vote) :
    Returns (handleVote N env e v) := by
  unfold handleVote
  split
  · exact returns_ok _
  split
  · exact returns_ok _
  rename_i hknown
  have hmem : v.voterDid ∈ N.thread.replicaDids :=
    of_decide_eq_true (Bool.eq_true_of_not_eq_false hknown)
  split
  · rename_i hnone
    exact absurd hnone (verifySig_ne_none hT hmem _ _)
  · exact returns_ok _
  · exact returns_acceptVote hT hr v

theorem returns_tick (hT : Usable N.thread) (hr : Ready e) (hround : InRange e env .tick) :
    Returns (tick N env e) := by
  unfold tick
  split
  · exact returns_ok _
  unfold tickPrecommit
  split
  · rename_i hel
    dsimp only
    split
    · rename_i hs
      obtain ⟨hel', hcs⟩ := tick_precommit_arm hel hs
      rw [hcs] at hs
      refine returns_proposeAndArm hT ?_
      rw [enterRound, saveState_cs]
      simp only [hcs]
      rw [toInt_add_one (hround rfl hel' hs)]
      have hheight := hr.height
      have hnonneg := hr.round
      omega
    · exact returns_ok _
  · exact returns_ok _

/-- **No call panics.** -/
theorem Chain.returns (hT : Usable N.thread) (hc : Chain N e) {ev : Event}
    (hv : ValidStep N e env ev) : Returns (step N env e ev) := by
  have hr := hc.ready
  cases ev with
  | pump =>
    simp only [step, pump]
    split
    · exact returns_ok _
    · exact returns_proposeAndArm hT (add_nonneg hr.height hr.round)
  | inbound msg =>
    simp only [step, stepInbound]
    split
    · exact returns_ok _
    split
    · exact returns_handleProposal hT hr _
    · exact returns_handleVote hT hr _
    · exact returns_ok _
  | tick => exact returns_tick hT hr hv.round
  | enqueue entry => exact returns_ok _

/-! ## Runs -/

theorem Group.Initial.chain {G : Group} {S : Cluster} (h : G.Initial S) (did : String) :
    Chain (G.node did) (S did) := by
  obtain ⟨s, -, heq⟩ := h.eq did
  rw [heq]
  refine ⟨⟨le_rfl, ?_, ?_⟩, rfl, ?_, ?_, ?_, ?_⟩
  · rintro b ⟨⟩
  · exact fun v hv => absurd hv List.not_mem_nil
  · rintro b ⟨⟩
  · rintro i b ⟨⟩
  · rintro i b ⟨⟩
  · exact fun b hb => absurd hb List.not_mem_nil

theorem Chain.acts (hc : Chain N e) (hacts : Acts N env (validProviso N) e e') : Chain N e' := by
  induction hacts with
  | refl => exact hc
  | tail _ hact ih => exact ih.act hact

/-- **The blocks of every replica are a chain** along every run whose steps are valid. -/
theorem Chain.run {G : Group} {S₀ S : Cluster} (h₀ : G.Initial S₀)
    (hrun : G.Run (fun S a => ValidStep (G.node a.did) (S a.did) a.env a.event) S₀ S) :
    ∀ did, G.Correct did → Chain (G.node did) (S did) := by
  induction hrun with
  | refl => exact fun did _ => h₀.chain did
  | @tail S₁ _ _ hstep ih =>
    obtain ⟨a, hc, hvalid, rfl⟩ := hstep
    refine Group.forall_update (Q := fun did e => Chain (G.node did) e) ih ?_
    have hacts : Acts (G.node a.did) a.env (validProviso (G.node a.did)) (S₁ a.did)
        (G.after S₁ a) := by
      refine step_acts a.event ?_ hvalid.round
      exact fun msg hmsg prop block hp hok => hvalid.proposal msg prop block hmsg hp hok
    exact (ih a.did hc).acts hacts

theorem Chain.heights (hc : Chain N e) : (savedBlocks e.trace).map ThreadBlock.height =
    (List.range (savedBlocks e.trace).length).map fun i : Nat => (i : Int) + 1 := by
  refine List.ext_getElem (by simp) fun i h₁ h₂ => ?_
  rw [List.getElem_map, List.getElem_map, List.getElem_range]
  rw [List.length_map] at h₁
  exact (hc.valid i _ (List.getElem?_eq_getElem h₁)).height

end MoltMesh.Tendermint

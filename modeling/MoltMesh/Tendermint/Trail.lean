import MoltMesh.Tendermint.Acts

/-!
# The trace of an act

The trace of a replica is a log of its store: the store is what the statements of
the trace replay to (`Logged`).  `Act.trail` says for each act what it appends to
the trace, effect by effect and in order, so that the points at which a process
can stop are the prefixes of a trace.
-/

namespace MoltMesh.Tendermint

open MoltMesh.Lib Pb

/-! ## Replaying a trace -/

/-- What an effect does to the store. -/
def Effect.apply (threadID : String) (s : Store) : Effect → Store
  | .write w => w.apply threadID s
  | _ => s

/-- The store after the statements of a trace. -/
def replay (threadID : String) (s : Store) (t : List Effect) : Store :=
  t.foldl (Effect.apply threadID) s

@[simp] theorem replay_nil (threadID : String) (s : Store) : replay threadID s [] = s := rfl

theorem replay_append (threadID : String) (s : Store) (t δ : List Effect) :
    replay threadID s (t ++ δ) = replay threadID (replay threadID s t) δ := List.foldl_append

/-- A vote that is stored stays as it is. -/
theorem mem_votes_apply {T : String} {s : Store} (a : Effect) {u : Vote} (hu : u ∈ s.votes.rows) :
    u ∈ (a.apply T s).votes.rows := by
  cases a with
  | write w =>
    cases w with
    | saveVote v => exact Table.mem_insertOrIgnore.mpr (.inl hu)
    | _ => exact hu
  | _ => exact hu

theorem mem_votes_replay {T : String} {s : Store} (δ : List Effect) {u : Vote} (hu : u ∈ s.votes.rows) :
    u ∈ (replay T s δ).votes.rows := by
  induction δ generalizing s with
  | nil => exact hu
  | cons a δ ih => exact ih (mem_votes_apply a hu)

/-- The trace has grown by `δ`, and the store is what `δ` makes of it. -/
structure Logged (N : Node) (e e' : Backend) (δ : List Effect) : Prop where
  trace : e'.trace = e.trace ++ δ
  store : e'.store = replay N.thread.id e.store δ

theorem Logged.refl (N : Node) (e : Backend) : Logged N e e [] := ⟨(List.append_nil _).symm, rfl⟩

theorem Logged.trans {N : Node} {e e' e'' : Backend} {δ δ' : List Effect} (h : Logged N e e' δ)
    (h' : Logged N e' e'' δ') : Logged N e e'' (δ ++ δ') where
  trace := by rw [h'.trace, h.trace, List.append_assoc]
  store := by rw [h'.store, h.store, replay_append]

/-- The effect of a statement, if it does not fail. -/
def ran (env : Env) (w : Write) : List Effect := if env.fails w then [] else [.write w]

variable (N : Node) (env : Env)

theorem logged_write (e : Backend) (w : Write) : Logged N e (write N env e w) (ran env w) := by
  unfold write ran
  split
  · exact .refl N e
  · exact ⟨rfl, rfl⟩

theorem logged_writeAll (ws : List Write) (e : Backend) :
    Logged N e (writeAll N env e ws) ((ws.filter fun w => !env.fails w).map .write) := by
  induction ws generalizing e with
  | nil => exact .refl N e
  | cons w ws ih =>
    have h := (logged_write N env e w).trans (ih (write N env e w))
    unfold ran at h
    cases hf : env.fails w with
    | true =>
      rw [List.filter_cons_of_neg (by simp [hf])]
      rwa [hf] at h
    | false =>
      rw [List.filter_cons_of_pos (by simp [hf])]
      rwa [hf] at h

theorem logged_broadcast (e : Backend) (p : Payload) :
    Logged N e (broadcast N e p) [.broadcast ⟨N.thread.id, p⟩] := ⟨rfl, rfl⟩

theorem logged_sendVote (e : Backend) (ty : VoteType) (H : String) :
    Logged N e (sendVote N env e ty H) (ran env (.saveVote (newVote N e ty H)) ++
      [.broadcast ⟨N.thread.id, .vote (newVote N e ty H)⟩]) :=
  (logged_write N env e _).trans (logged_broadcast N _ _)

/-! ## What an act appends -/

/-- The statements about votes and pending entries. -/
def Plain : Write → Prop
  | .saveVote _ | .deletePending _ | .enqueueEntry _ _ => True
  | .saveBlock _ | .saveConsensusState _ => False

/-- What proposing in state `e` appends: entries are dequeued, and a proposal may follow. -/
inductive ProposeTrail (N : Node) (e : Backend) : List Effect → Prop
  | none {ws : List Write} (plain : ∀ w ∈ ws, Plain w) : ProposeTrail N e (ws.map .write)
  | proposal {ws : List Write} {block : ThreadBlock} (plain : ∀ w ∈ ws, Plain w)
    (proposer : isProposer N e = some true) (own : OwnBlock N e.cs.height e.cs.round block) :
    ProposeTrail N e (ws.map .write ++
      [.broadcast ⟨N.thread.id, .proposal (newProposal N e block)⟩])

/-- What casting a vote appends: the vote is stored and broadcast, then the state is saved. -/
def voteTrail (e : Backend) (ty : VoteType) (H : String) (cs : ConsensusState) : List Effect :=
  ran env (.saveVote (newVote N e ty H)) ++
    [.broadcast ⟨N.thread.id, .vote (newVote N e ty H)⟩] ++ ran env (.saveConsensusState cs)

/-- What an act from `e` to `e'` appends to the trace. -/
inductive Trail (P : Proviso) (e e' : Backend) : List Effect → Prop
  | plain {ws : List Write} (plain : ∀ w ∈ ws, Plain w) (cs : e'.cs = e.cs) :
    Trail P e e' (ws.map .write)
  | prevote {H : String} (casts : Casts N env P e .prevote H) (step : e.cs.step = .propose)
    (cs : e'.cs = { e.cs with step := .prevote }) : Trail P e e' (voteTrail N env e .prevote H e'.cs)
  | unlock {H : String} (casts : Casts N env P e .prevote H) (step : e.cs.step = .propose)
    (cs : e'.cs = { e.cs with step := .prevote, lockedRound := -1, lockedHash := "" }) :
    Trail P e e' (.unlock e.cs.height e.cs.round :: voteTrail N env e .prevote H e'.cs)
  | precommitNil (step : e.cs.step = .prevote) (cs : e'.cs = { e.cs with step := .precommit }) :
    Trail P e e' (voteTrail N env e .precommit "" e'.cs)
  | precommit {H : String} (step : e.cs.step = .prevote) (notNil : H ≠ "")
    (cs : e'.cs = { (lockOn e H).cs with step := .precommit }) :
    Trail P e e' (voteTrail N env e .precommit H e'.cs)
  | start {δ : List Effect} (unstarted : e.started = false) (started : e'.started = true)
    (cs : e'.cs = e.cs) (propose : ProposeTrail N e' δ) : Trail P e e' δ
  | round {r : Int32} {δ : List Effect} (started : e.started = true)
    (later : e.cs.round < r ∨ (r = e.cs.round + 1 ∧ P.advance e.cs))
    (cs : e'.cs = { e.cs with round := r, step := .propose }) (propose : ProposeTrail N e' δ) :
    Trail P e e' (ran env (.saveConsensusState e'.cs) ++ δ)
  | commitFails {block : ThreadBlock} (ok : CommitOk N env e block) (cs : e'.cs = e.cs) :
    Trail P e e' [.commit e.cs.height (stamped env block)]
  | commitPanics {block : ThreadBlock} (ok : CommitOk N env e block)
    (short : block.blockHash.utf8ByteSize < 8) (cs : e'.cs = e.cs) :
    Trail P e e' [.commit e.cs.height (stamped env block), .write (.saveBlock (stamped env block))]
  | commit {block : ThreadBlock} {δ : List Effect} (started : e.started = true)
    (ok : CommitOk N env e block) (cs : e'.cs = .start (block.height + 1))
    (propose : ProposeTrail N e' δ) :
    Trail P e e' ([.commit e.cs.height (stamped env block),
      .write (.saveBlock (stamped env block))] ++ ran env (.saveConsensusState e'.cs) ++ δ)

variable {N env} {P : Proviso} {e e' : Backend}

variable (N env) in
theorem proposing_trail (e : Backend) :
    ∃ δ, Logged N e (proposing N env e) δ ∧ ProposeTrail N (proposing N env e) δ := by
  have hnone : ∃ δ, Logged N e e δ ∧ ProposeTrail N e δ :=
    ⟨[], .refl N e, .none fun _ h => absurd h List.not_mem_nil⟩
  unfold proposing enterPropose
  cases hprop : isProposer N e with
  | none => exact hnone
  | some b =>
    cases b with
    | false => exact hnone
    | true =>
      unfold buildProposal
      cases hd : dequeuePendingEntries N env e maxPendingPerBlock with
      | none => exact hnone
      | some x =>
        obtain ⟨entries, e₁⟩ := x
        have hcs := (dequeuePendingEntries_spec N env hd).1.cs
        unfold dequeuePendingEntries at hd
        split at hd
        · cases hd
        obtain ⟨-, rfl⟩ := Prod.mk.inj (Option.some.inj hd)
        have hlog := logged_writeAll N env (((e.store.pendingEntries N.thread.id).take
          maxPendingPerBlock).map fun r => .deletePending r.id) e
        have hplain : ∀ w ∈ ((((e.store.pendingEntries N.thread.id).take
            maxPendingPerBlock).map fun r => Write.deletePending r.id).filter
              fun w => !env.fails w), Plain w := by
          intro w hw
          obtain ⟨r, -, rfl⟩ := List.mem_map.mp (List.mem_filter.mp hw).1
          exact trivial
        dsimp only
        split
        · exact ⟨_, hlog, .none hplain⟩
        · refine ⟨_, hlog.trans (logged_broadcast N _ _), .proposal hplain ?_ ?_⟩
          · rw [← hprop]
            simp only [isProposer, final, broadcast, hcs]
          · exact ownBlock_newBlock entries

variable (N env) in
/-- Saving the state, and then proposing. -/
theorem enterRound_trail (e : Backend) (r : Int32) : ∃ δ,
    Logged N e (proposing N env (enterRound N env e r))
      (ran env (.saveConsensusState (proposing N env (enterRound N env e r)).cs) ++ δ) ∧
    ProposeTrail N (proposing N env (enterRound N env e r)) δ := by
  obtain ⟨δ, hlog, hδ⟩ := proposing_trail N env (enterRound N env e r)
  refine ⟨δ, .trans ?_ hlog, hδ⟩
  rw [(proposing_spec N env (enterRound N env e r)).cs, enterRound, saveState_cs]
  have h := logged_write N env { e with cs := { e.cs with round := r, step := .propose } }
    (.saveConsensusState { e.cs with round := r, step := .propose })
  exact ⟨h.trace, h.store⟩

variable (N env) in
/-- Casting a vote in state `e₁`, which differs from `e` by what casting it does not look at. -/
theorem prevote_trail (e₁ : Backend) (H : String) :
    Logged N e₁ (toPrevote N env (sendVote N env e₁ .prevote H))
      (voteTrail N env e₁ .prevote H { e₁.cs with step := .prevote }) := by
  refine (logged_sendVote N env e₁ .prevote H).trans ?_
  have h := logged_write N env { sendVote N env e₁ .prevote H with
    cs := { e₁.cs with step := .prevote } } (.saveConsensusState { e₁.cs with step := .prevote })
  unfold toPrevote saveState
  rw [sendVote_cs]
  exact ⟨h.trace, h.store⟩

variable (N env) in
theorem precommit_trail (e₁ : Backend) (H : String) :
    Logged N e₁ (toPrecommit N env (sendVote N env e₁ .precommit H))
      (voteTrail N env e₁ .precommit H { e₁.cs with step := .precommit }) := by
  refine (logged_sendVote N env e₁ .precommit H).trans ?_
  have h := logged_write N env { sendVote N env e₁ .precommit H with
    cs := { e₁.cs with step := .precommit } } (.saveConsensusState { e₁.cs with step := .precommit })
  unfold toPrecommit saveState
  rw [sendVote_cs]
  exact ⟨h.trace, h.store⟩

theorem acceptProposal_trail {prop : Proposal} {block : ThreadBlock} (hp : ProposalOk N e prop block)
    (hh : P.heard e (.proposal prop)) : ∃ δ, Logged N e (acceptProposal N env e prop block) δ ∧
      Trail N env P e (acceptProposal N env e prop block) δ := by
  rcases acceptProposal_cases N env e prop block with ⟨-, -, heq⟩ | ⟨-, -, heq⟩ | ⟨-, heq⟩ <;>
    rw [heq]
  · have h := prevote_trail N env { e with proposal := some block } ""
    have hcs : (toPrevote N env (sendVote N env { e with proposal := some block } .prevote "")).cs =
        { e.cs with step := .prevote } := by
      simp [toPrevote]
    exact ⟨_, ⟨h.trace, h.store⟩, hcs ▸ .prevote (.prevoteNil hp.step) hp.step hcs⟩
  · have h := prevote_trail N env (Tendermint.unlock { e with proposal := some block }) block.blockHash
    have hcs : (toPrevote N env (sendVote N env (Tendermint.unlock { e with proposal := some block })
        .prevote block.blockHash)).cs =
        { e.cs with step := .prevote, lockedRound := -1, lockedHash := "" } := by
      simp [toPrevote, Tendermint.unlock]
    refine ⟨_, ⟨?_, ?_⟩, .unlock (.proposal hp hh) hp.step hcs⟩
    · rw [h.trace, hcs]
      simp only [Tendermint.unlock, List.append_assoc, List.singleton_append]
      rfl
    · rw [h.store, hcs]
      rfl
  · have h := prevote_trail N env { e with proposal := some block } block.blockHash
    have hcs : (toPrevote N env (sendVote N env { e with proposal := some block } .prevote
        block.blockHash)).cs = { e.cs with step := .prevote } := by
      simp [toPrevote]
    exact ⟨_, ⟨h.trace, h.store⟩, hcs ▸ .prevote (.proposal hp hh) hp.step hcs⟩

/-- Storing a block and saving the state of the next height. -/
theorem committed_trail {block : ThreadBlock}
    (hf : env.fails (.saveBlock (stamped env block)) = false) :
    Logged N e (committed N env e block) ([.commit e.cs.height (stamped env block),
      .write (.saveBlock (stamped env block))] ++
        ran env (.saveConsensusState (.start (block.height + 1)))) := by
  have hmark : Logged N e (markCommit e (stamped env block))
      [.commit e.cs.height (stamped env block)] := ⟨rfl, rfl⟩
  have hsave := logged_write N env (markCommit e (stamped env block))
    (.saveBlock (stamped env block))
  rw [ran, hf] at hsave
  refine (hmark.trans hsave).trans ?_
  have hstate := logged_write N env
    { write N env (markCommit e (stamped env block)) (.saveBlock (stamped env block)) with
      cs := .start (block.height + 1), proposal := none, futureVotes := [] }
    (.saveConsensusState (.start (block.height + 1)))
  exact ⟨hstate.trace, hstate.store⟩

/-- **What an act appends to the trace**, and that the store follows it. -/
theorem Act.trail (hact : Act N env P e e') : ∃ δ, Logged N e e' δ ∧ Trail N env P e e' δ := by
  have hnil : ∀ w ∈ ([] : List Write), Plain w := fun _ h => absurd h List.not_mem_nil
  have hplain : ∀ w, Plain w → Logged N e (write N env e w) (ran env w) ∧
      Trail N env P e (write N env e w) (ran env w) := by
    intro w hw
    refine ⟨logged_write N env e w, ?_⟩
    unfold ran
    split
    · exact .plain hnil (write_cs N env e w)
    · have hone : ∀ w' ∈ [w], Plain w' := fun _ h => List.mem_singleton.mp h ▸ hw
      exact .plain hone (write_cs N env e w)
  cases hact with
  | arm p v c => exact ⟨[], ⟨(List.append_nil _).symm, rfl⟩, .plain hnil rfl⟩
  | start hs =>
    obtain ⟨δ, hlog, hδ⟩ := proposing_trail N env { e with started := true }
    have hp := proposing_spec N env { e with started := true }
    exact ⟨δ, ⟨hlog.trace, hlog.store⟩, .start hs hp.started hp.cs hδ⟩
  | enqueue entry => exact ⟨_, hplain _ trivial⟩
  | saveVote hv hh hr => exact ⟨_, hplain _ trivial⟩
  | buffer hv hh hr => exact ⟨[], ⟨(List.append_nil _).symm, rfl⟩, .plain hnil rfl⟩
  | @flush r hr =>
    have hlog := logged_writeAll N env ((futureVotesAt e r).map .saveVote) e
    refine ⟨_, ⟨hlog.trace, hlog.store⟩, .plain ?_ (flushFutureVotes_cs r)⟩
    intro w hw
    obtain ⟨v, -, rfl⟩ := List.mem_map.mp (List.mem_filter.mp hw).1
    exact trivial
  | accept hp hh => exact acceptProposal_trail hp hh
  | prevoteNil hs =>
    have hcs : (toPrevote N env (sendVote N env e .prevote "")).cs =
        { e.cs with step := .prevote } := by
      simp [toPrevote]
    exact ⟨_, prevote_trail N env e "", hcs ▸ .prevote (.prevoteNil hs) hs hcs⟩
  | precommitNil hs =>
    have hcs : (toPrecommit N env (sendVote N env e .precommit "")).cs =
        { e.cs with step := .precommit } := by
      simp [toPrecommit]
    exact ⟨_, precommit_trail N env e "", hcs ▸ .precommitNil hs hcs⟩
  | @precommit H hs hw hp hn =>
    have h := precommit_trail N env (lockOn e H) H
    have hcs : (toPrecommit N env (sendVote N env (lockOn e H) .precommit H)).cs =
        { (lockOn e H).cs with step := .precommit } := by
      simp [toPrecommit]
    exact ⟨_, ⟨h.trace, h.store⟩, hcs ▸ .precommit hs hn hcs⟩
  | nextRound hst hs ha =>
    obtain ⟨δ, hlog, hδ⟩ := enterRound_trail N env e (e.cs.round + 1)
    have hcs := (proposing_spec N env (enterRound N env e (e.cs.round + 1))).cs.trans
      (saveState_cs N env _)
    exact ⟨_, hlog, .round hst (.inr ⟨rfl, ha⟩) hcs hδ⟩
  | @skip r hst hr =>
    obtain ⟨δ, hlog, hδ⟩ := enterRound_trail N env e r
    have hcs := (proposing_spec N env (enterRound N env e r)).cs.trans (saveState_cs N env _)
    exact ⟨_, hlog, .round hst (.inl hr) hcs hδ⟩
  | commitFails hc => exact ⟨_, ⟨rfl, rfl⟩, .commitFails hc rfl⟩
  | commitPanics hc hf hl =>
    refine ⟨_, ⟨?_, ?_⟩, .commitPanics hc hl (by simp [markCommit])⟩
    · simp [write, hf, markCommit]
    · simp only [write, hf, markCommit]
      rfl
  | @commit block hst hc hf hl =>
    obtain ⟨δ, hlog, hδ⟩ := proposing_trail N env (committed N env e block)
    have hcs := (proposing_spec N env (committed N env e block)).cs.trans
      (committed_cs N env e block)
    refine ⟨_, .trans ?_ hlog, .commit hst hc hcs hδ⟩
    rw [hcs]
    exact committed_trail hf

end MoltMesh.Tendermint

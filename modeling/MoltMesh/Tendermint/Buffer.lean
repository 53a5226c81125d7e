import MoltMesh.Tendermint.Restart

/-!
# Votes that come early

A vote for a later round is kept in `futureVotes` and written to the store when the
replica skips to that round on a quorum of prevotes.  Nothing else writes it: a
precommit timeout that brings the replica to the round leaves the vote in the buffer,
and so does a skip past it.  `Receiver` is a replica with the votes that have passed
its checks.
-/

namespace MoltMesh.Tendermint

open MoltMesh.Lib Pb

variable {N : Node} {env : Env} {P : Proviso} {e e' : Backend} {v : Vote} {heard : List Vote}
  {ev : Event}

/-- The store has a row for a vote. -/
def Stored (e : Backend) (v : Vote) : Prop := voteKey v ∈ e.store.votes.rows.map voteKey

/-- The buffer has a vote with the key of a vote. -/
def Buffered (e : Backend) (v : Vote) : Prop := voteKey v ∈ e.futureVotes.map voteKey

instance (e : Backend) (v : Vote) : Decidable (Stored e v) := inferInstanceAs (Decidable (_ ∈ _))

/-! ## What is stored stays stored -/

theorem stored_saveVote (v : Vote) (hfails : env.fails (.saveVote v) = false) :
    Stored (write N env e (.saveVote v)) v := by
  unfold write
  rw [hfails]
  by_cases hk : voteKey v ∈ e.store.votes.rows.map voteKey
  · obtain ⟨u, hu, hkey⟩ := List.mem_map.mp hk
    exact List.mem_map.mpr ⟨u, Table.mem_insertOrIgnore.mpr (.inl hu), hkey⟩
  · exact List.mem_map.mpr ⟨v, Table.mem_insertOrIgnore.mpr (.inr ⟨rfl, hk⟩), rfl⟩

theorem Logged.stored {δ : List Effect} (h : Logged N e e' δ) (hv : Stored e v) : Stored e' v := by
  obtain ⟨u, hu, hkey⟩ := List.mem_map.mp hv
  refine List.mem_map.mpr ⟨u, ?_, hkey⟩
  rw [h.store]
  exact mem_votes_replay δ hu

theorem Act.stored (hact : Act N env P e e') (hv : Stored e v) : Stored e' v := by
  obtain ⟨δ, hlog, -⟩ := hact.trail
  exact hlog.stored hv

theorem stored_writeAll {vs : List Vote} (hfails : ∀ v, env.fails (.saveVote v) = false)
    (hv : v ∈ vs) : Stored (writeAll N env e (vs.map .saveVote)) v := by
  induction vs generalizing e with
  | nil => exact absurd hv List.not_mem_nil
  | cons u vs ih =>
    rcases List.mem_cons.mp hv with rfl | hv
    · exact (logged_writeAll N env (vs.map .saveVote) _).stored (stored_saveVote v (hfails v))
    · exact ih hv

/-! ## What becomes of the buffer -/

/-- What an act does to the buffer. -/
inductive Buffering (N : Node) (env : Env) (e e' : Backend) : Prop
  | same (height : e'.cs.height = e.cs.height) (h : e'.futureVotes = e.futureVotes)
  | grows {v : Vote} (ok : VoteOk N e v) (cs : e'.cs = e.cs)
    (h : e'.futureVotes = e.futureVotes ++ [v])
  | flushes {r : Int32} (h : e' = flushFutureVotes N env e r)
  | clears {block : ThreadBlock} (proposal : e.proposal = some block)
    (cs : e'.cs = .start (block.height + 1)) (h : e'.futureVotes = [])

theorem Buffering.of_proposing {e₁ : Backend} (hheight : e₁.cs.height = e.cs.height)
    (hbuffer : e₁.futureVotes = e.futureVotes) : Buffering N env e (proposing N env e₁) := by
  have hp := proposing_spec N env e₁
  exact .same (by rw [hp.cs, hheight]) (hp.futureVotes.trans hbuffer)

theorem Act.buffering (hact : Act N env P e e') : Buffering N env e e' := by
  cases hact with
  | arm p v c => exact .same rfl rfl
  | start hs => exact .of_proposing rfl rfl
  | enqueue entry => exact .same (by simp) (by simp)
  | saveVote hv hh hr => exact .same (by simp) (by simp)
  | buffer hv hh hr => exact .grows hv rfl rfl
  | flush hr => exact .flushes rfl
  | @accept prop block hp hh =>
    rcases acceptProposal_cases N env e prop block with ⟨-, -, heq⟩ | ⟨-, -, heq⟩ | ⟨-, heq⟩ <;>
      exact .same (by rw [heq]; simp [toPrevote, unlock]) (by rw [heq]; simp [toPrevote, unlock])
  | prevoteNil hs => exact .same (by simp [toPrevote]) (by simp [toPrevote])
  | precommitNil hs => exact .same (by simp [toPrecommit]) (by simp [toPrecommit])
  | precommit hs hw hp hn => exact .same (by simp [toPrecommit, lockOn]) (by simp [toPrecommit, lockOn])
  | nextRound hst hs ha => exact .of_proposing (by simp [enterRound]) (by simp [enterRound])
  | skip hst hr => exact .of_proposing (by simp [enterRound]) (by simp [enterRound])
  | commitFails hc => exact .same rfl rfl
  | commitPanics hc hf hl => exact .same (by simp [markCommit]) (by simp [markCommit])
  | @commit block hst hc hf hl =>
    have hp := proposing_spec N env (committed N env e block)
    exact .clears hc.proposal (hp.cs.trans (committed_cs N env e block))
      (hp.futureVotes.trans (committed_futureVotes N env e block))

theorem buffered_flushFutureVotes {r : Int32} (hfails : ∀ v, env.fails (.saveVote v) = false)
    (hv : Buffered e v) :
    Stored (flushFutureVotes N env e r) v ∨ Buffered (flushFutureVotes N env e r) v := by
  obtain ⟨u, hu, hkey⟩ := List.mem_map.mp hv
  by_cases hr : u.round = r
  · left
    have hmem : u ∈ futureVotesAt e r := List.mem_filter.mpr ⟨hu, decide_eq_true hr⟩
    have hstored : Stored (writeAll N env e ((futureVotesAt e r).map .saveVote)) u :=
      stored_writeAll hfails hmem
    rw [Stored, hkey] at hstored
    exact hstored
  · right
    refine List.mem_map.mpr ⟨u, List.mem_filter.mpr ⟨?_, decide_eq_true hr⟩, hkey⟩
    rwa [(quiet_writeAll N env _ e).futureVotes]

/-! ## A vote is stored or in the buffer -/

/-- An accepted proposal is for the height of its block. -/
def heightProviso (N : Node) : Proviso where
  heard e p := ∀ prop block, p = .proposal prop → ProposalOk N e prop block →
    block.height = prop.height
  advance _ := True

/-- What holds of a replica that has heard the votes `heard`. -/
structure Keeps (e : Backend) (heard : List Vote) : Prop where
  proposal : ∀ b, e.proposal = some b → b.height = e.cs.height
  height : ∀ u ∈ e.futureVotes, u.height = e.cs.height
  past : ∀ v ∈ heard, v.height ≤ e.cs.height
  kept : ∀ v ∈ heard, v.height = e.cs.height → Stored e v ∨ Buffered e v

/-- The block of the proposal is for the current height. -/
theorem Moves.proposal_height (h : Moves N env (heightProviso N) e e')
    (he : ∀ b, e.proposal = some b → b.height = e.cs.height) :
    ∀ b, e'.proposal = some b → b.height = e'.cs.height := by
  intro b hb
  cases h with
  | stay cs proposal => rw [cs]; exact he b (proposal ▸ hb)
  | accept ok heard cs proposal =>
    obtain rfl := Option.some.inj (proposal.symm.trans hb)
    rw [cs, heard _ _ rfl ok, ok.height]
  | unlock ok heard _ _ cs proposal =>
    obtain rfl := Option.some.inj (proposal.symm.trans hb)
    rw [cs, heard _ _ rfl ok, ok.height]
  | prevoteNil _ cs proposal => rw [cs]; exact he b (proposal ▸ hb)
  | precommitNil _ cs proposal => rw [cs]; exact he b (proposal ▸ hb)
  | lock _ _ _ cs proposal => rw [cs]; exact he b (proposal ▸ hb)
  | nextRound _ _ cs proposal => rw [cs]; exact he b (proposal ▸ hb)
  | skip _ cs proposal => rw [cs]; exact he b (proposal ▸ hb)
  | @stamp block ok cs proposal =>
    obtain rfl := Option.some.inj (proposal.symm.trans hb)
    rw [cs]
    exact he block ok.proposal
  | commit ok cs proposal =>
    rw [proposal] at hb
    cases hb

/-- A vote is stored or in the buffer after an act that keeps the height. -/
theorem Keeps.of_height (h : Keeps e heard) (hheight : e'.cs.height = e.cs.height)
    (hproposal : ∀ b, e'.proposal = some b → b.height = e'.cs.height)
    (hbuffer : ∀ u ∈ e'.futureVotes, u.height = e.cs.height)
    (hkept : ∀ v, Stored e v ∨ Buffered e v → Stored e' v ∨ Buffered e' v) : Keeps e' heard where
  proposal := hproposal
  height := fun u hu => (hbuffer u hu).trans hheight.symm
  past := fun v hv => hheight ▸ h.past v hv
  kept := fun v hv heq => hkept v (h.kept v hv (heq.trans hheight))

theorem Keeps.act (h : Keeps e heard) (hfails : ∀ v, env.fails (.saveVote v) = false)
    (hact : Act N env (heightProviso N) e e') : Keeps e' heard := by
  have hproposal := hact.deed.moves.proposal_height h.proposal
  have hstored : ∀ v, Stored e v → Stored e' v ∨ Buffered e' v := fun v hv => .inl (hact.stored hv)
  cases hact.buffering with
  | same hheight hbuf =>
    refine h.of_height hheight hproposal (hbuf ▸ h.height) ?_
    rintro v (hv | hv)
    · exact hstored v hv
    · right
      rwa [Buffered, hbuf]
  | @grows v₁ ok hcs hbuf =>
    refine h.of_height (congrArg _ hcs) hproposal ?_ ?_
    · intro u hu
      rw [hbuf] at hu
      rcases List.mem_append.mp hu with hu | hu
      · exact h.height u hu
      · rw [List.mem_singleton.mp hu]
        exact ok.height
    · rintro v (hv | hv)
      · exact hstored v hv
      · right
        rw [Buffered, hbuf, List.map_append]
        exact List.mem_append_left _ hv
  | @flushes r heq =>
    refine h.of_height (by rw [heq, flushFutureVotes_cs]) hproposal ?_ ?_
    · intro u hu
      rw [heq] at hu
      exact h.height u (mem_futureVotes_flushFutureVotes N env e hu)
    · rintro v (hv | hv)
      · exact hstored v hv
      · rw [heq]
        exact buffered_flushFutureVotes hfails hv
  | @clears block hblock hcs hbuf =>
    -- A new height, at which nothing has been heard.
    have hheight : e'.cs.height = e.cs.height + 1 := by rw [hcs, ← h.proposal block hblock]; rfl
    refine ⟨hproposal, by rw [hbuf]; exact fun u hu => absurd hu List.not_mem_nil, ?_, ?_⟩
    · intro v hv
      have := h.past v hv
      omega
    · intro v hv heq
      have := h.past v hv
      omega

theorem Keeps.acts (h : Keeps e heard) (hfails : ∀ v, env.fails (.saveVote v) = false)
    (hacts : Acts N env (heightProviso N) e e') : Keeps e' heard := by
  induction hacts with
  | refl => exact h
  | tail _ hact ih => exact ih.act hfails hact

/-! ## The votes a replica hears -/

instance (N : Node) (e : Backend) (v : Vote) : Decidable (VoteOk N e v) :=
  decidable_of_iff (v.height = e.cs.height ∧ isKnownValidator N.thread v.voterDid = true ∧
    verifyVoteSig N.crypto v = some (.ok ())) ⟨fun ⟨h, k, s⟩ => ⟨h, k, s⟩, fun h => ⟨h.height, h.known, h.sig⟩⟩

/-- The votes in a call that pass the checks of `handleVote`. -/
def heardIn (N : Node) (e : Backend) : Event → List Vote
  | .inbound ⟨_, .vote v⟩ => if e.started = true ∧ VoteOk N e v then [v] else []
  | _ => []

theorem mem_heardIn (h : v ∈ heardIn N e ev) :
    e.started = true ∧ VoteOk N e v ∧ ∃ i, ev = .inbound ⟨i, .vote v⟩ := by
  unfold heardIn at h
  split at h
  · rename_i i u
    split_ifs at h with hok
    · obtain rfl := List.mem_singleton.mp h
      exact ⟨hok.1, hok.2, i, rfl⟩
    · exact absurd h List.not_mem_nil
  · exact absurd h List.not_mem_nil

/-- Whether the prevotes of its round in the buffer make the replica skip to the round of a vote. -/
def skips (N : Node) (e : Backend) (v : Vote) : Bool :=
  quorum N.thread ≤ (((futureVotesAt (bufferFutureVote e v) v.round).filter fun u =>
    u.type = .prevote).map Vote.voterDid).dedup.length

/-- The condition on a call: an accepted proposal is for the height of its block; a round is left
behind only if no vote for it or for the next one is in the buffer; and a vote is not taken for
one that the voter has cast in another thread. -/
structure Orderly (N : Node) (e : Backend) (env : Env) (ev : Event) : Prop where
  proposal : ∀ msg prop block, ev = .inbound msg → msg.payload = .proposal prop →
    ProposalOk N e prop block → block.height = prop.height
  timeout : ev = .tick → elapsed env e.precommitAt = true → e.cs.step = .precommit →
    ∀ u ∈ e.futureVotes, e.cs.round + 1 < u.round
  skip : ∀ v ∈ heardIn N e ev, e.cs.round < v.round → skips N e v = true →
    ∀ u ∈ e.futureVotes, v.round ≤ u.round
  thread : ∀ v ∈ heardIn N e ev, ∀ u ∈ e.futureVotes, u.round = v.round → u.voterDid = v.voterDid →
    u.type = v.type → u.threadId = v.threadId

theorem step_of_heard {i : String} (hst : e.started = true) (hv : VoteOk N e v) :
    step N env e (.inbound ⟨i, .vote v⟩) = acceptVote N env e v := by
  have hknown : ¬isKnownValidator N.thread v.voterDid = false := by rw [hv.known]; decide
  simp only [step, stepInbound, handleVote]
  rw [if_neg (by rw [hst]; decide), if_neg (not_not.mpr hv.height), if_neg hknown, hv.sig]

/-- A vote that is not heard changes nothing. -/
theorem step_of_not_heard {i : String} (h : ¬(e.started = true ∧ VoteOk N e v)) :
    final (step N env e (.inbound ⟨i, .vote v⟩)) = e := by
  simp only [step, stepInbound, handleVote]
  split
  · rfl
  rename_i hst
  split
  · rfl
  rename_i hheight
  split
  · rfl
  rename_i hknown
  split
  · rfl
  · rfl
  rename_i hsig
  refine absurd ⟨Bool.eq_true_of_not_eq_false hst, ?_⟩ h
  exact ⟨not_not.mp hheight, Bool.eq_true_of_not_eq_false hknown, hsig⟩

theorem Keeps.hear (h : Keeps e heard) (hheight : v.height = e.cs.height)
    (hv : Stored e v ∨ Buffered e v) : Keeps e (heard ++ [v]) where
  proposal := h.proposal
  height := h.height
  past := by
    intro u hu
    rcases List.mem_append.mp hu with hu | hu
    · exact h.past u hu
    · rw [List.mem_singleton.mp hu, hheight]
  kept := by
    intro u hu heq
    rcases List.mem_append.mp hu with hu | hu
    · exact h.kept u hu heq
    · rw [List.mem_singleton.mp hu]
      exact hv

/-- A vote is in the buffer afterwards, unless the voter's vote in another thread is in its place. -/
theorem buffered_bufferFutureVote (h : Keeps e heard) (hheight : v.height = e.cs.height)
    (hthread : ∀ u ∈ e.futureVotes, u.round = v.round → u.voterDid = v.voterDid → u.type = v.type →
      u.threadId = v.threadId) : Buffered (bufferFutureVote e v) v := by
  unfold bufferFutureVote
  split_ifs with hany
  · obtain ⟨u, hu, hsame⟩ := List.any_eq_true.mp hany
    obtain ⟨hmem, hround⟩ := List.mem_filter.mp hu
    obtain ⟨hdid, htype⟩ := of_decide_eq_true hsame
    have hround' : u.round = v.round := of_decide_eq_true hround
    refine List.mem_map.mpr ⟨u, hmem, ?_⟩
    rw [voteKey, voteKey, hthread u hmem hround' hdid htype, h.height u hmem, hheight, hround', hdid, htype]
  · exact List.mem_map.mpr ⟨v, List.mem_append_right _ (List.mem_singleton_self v), rfl⟩

theorem Keeps.step (h : Keeps e heard) (hfails : ∀ v, env.fails (.saveVote v) = false)
    (hok : Orderly N e env ev) : Keeps (final (step N env e ev)) (heard ++ heardIn N e ev) := by
  cases hheard : heardIn N e ev with
  | nil =>
    rw [List.append_nil]
    refine h.acts hfails (step_acts ev ?_ fun _ _ _ => trivial)
    exact fun msg hev prop block hp hpok => hok.proposal msg prop block hev hp hpok
  | cons v rest =>
    have hmem : v ∈ heardIn N e ev := hheard ▸ List.mem_cons_self
    have hthread := hok.thread v hmem
    obtain ⟨hst, hv, i, rfl⟩ := mem_heardIn hmem
    obtain rfl : rest = [] := by
      rw [heardIn, if_pos ⟨hst, hv⟩] at hheard
      exact (List.cons.inj hheard).2.symm
    have hvote : (heightProviso N).heard e (.vote v) := fun _ _ hp => by cases hp
    rw [step_of_heard hst hv]
    by_cases hr : e.cs.round < v.round
    · have hbuf := h.acts hfails (bufferFutureVote_acts hv hvote hr)
      have hhear := hbuf.hear (v := v) (by rw [bufferFutureVote_cs, hv.height])
        (.inr (buffered_bufferFutureVote h hv.height hthread))
      unfold acceptVote
      rw [if_pos hr]
      exact hhear.acts hfails (checkFutureRoundSkip_acts (by rwa [bufferFutureVote_started])
        (by rwa [bufferFutureVote_cs]))
    · have hsave := h.act hfails (.saveVote hv hvote hr)
      have hhear := hsave.hear (v := v) (by rw [write_cs, hv.height])
        (.inl (stored_saveVote v (hfails v)))
      exact hhear.acts hfails (acceptVote_saved_acts hst hv hr (hfails v))

/-! ## What is in the buffer is for later rounds -/

/-- Every vote in the buffer is for a later round. -/
def Later (e : Backend) : Prop := ∀ u ∈ e.futureVotes, e.cs.round < u.round

/-- Round and buffer are as before. -/
structure SameBuffer (e e' : Backend) : Prop where
  round : e'.cs.round = e.cs.round
  futureVotes : e'.futureVotes = e.futureVotes

theorem SameBuffer.trans {e'' : Backend} (h : SameBuffer e e') (h' : SameBuffer e' e'') :
    SameBuffer e e'' := ⟨h'.round.trans h.round, h'.futureVotes.trans h.futureVotes⟩

theorem Later.of_same (h : Later e) (hsame : SameBuffer e e') : Later e' := by
  intro u hu
  rw [hsame.round]
  exact h u (hsame.futureVotes ▸ hu)

theorem Later.of_nil (h : e.futureVotes = []) : Later e := by
  intro u hu
  rw [h] at hu
  exact absurd hu List.not_mem_nil

theorem sameBuffer_proposing (e : Backend) : SameBuffer e (proposing N env e) := by
  have hp := proposing_spec N env e
  exact ⟨by rw [hp.cs], hp.futureVotes⟩

theorem sameBuffer_proposeAndArm (e : Backend) : SameBuffer e (final (proposeAndArm N env e)) := by
  have hsame := @sameBuffer_proposing N env e
  unfold proposeAndArm
  unfold proposing at hsame
  cases he : enterPropose N env e with
  | error e' => rwa [he] at hsame
  | ok e' =>
    rw [he] at hsame
    exact ⟨hsame.round, hsame.futureVotes⟩

theorem sameBuffer_toPrevote (e : Backend) (H : String) :
    SameBuffer e (toPrevote N env (sendVote N env e .prevote H)) :=
  ⟨by simp [toPrevote], by simp [toPrevote]⟩

theorem sameBuffer_toPrecommit (e : Backend) (H : String) :
    SameBuffer e (toPrecommit N env (sendVote N env e .precommit H)) :=
  ⟨by simp [toPrecommit], by simp [toPrecommit]⟩

theorem sameBuffer_tickPropose (e : Backend) : SameBuffer e (tickPropose N env e) := by
  unfold tickPropose
  dsimp only
  split_ifs
  · have hsame := @sameBuffer_toPrevote N env { e with proposeAt := none } ""
    exact ⟨hsame.round, hsame.futureVotes⟩
  · exact ⟨rfl, rfl⟩
  · exact ⟨rfl, rfl⟩

theorem sameBuffer_tickPrevote (e : Backend) : SameBuffer e (tickPrevote N env e) := by
  unfold tickPrevote
  dsimp only
  split_ifs
  · have hsame := @sameBuffer_toPrecommit N env { e with prevoteAt := none } ""
    exact ⟨hsame.round, hsame.futureVotes⟩
  · exact ⟨rfl, rfl⟩
  · exact ⟨rfl, rfl⟩

theorem sameBuffer_handleProposal (e : Backend) (prop : Proposal) :
    SameBuffer e (final (handleProposal N env e prop)) := by
  have hrefl : SameBuffer e e := ⟨rfl, rfl⟩
  unfold handleProposal
  split
  · exact hrefl
  split
  · exact hrefl
  split
  · exact hrefl
  · exact hrefl
  split
  · exact hrefl
  rename_i block _
  split
  · exact hrefl
  · exact hrefl
  rcases acceptProposal_cases N env e prop block with ⟨-, -, heq⟩ | ⟨-, -, heq⟩ | ⟨-, heq⟩ <;>
    exact ⟨by simp [final, heq, toPrevote, unlock], by simp [final, heq, toPrevote, unlock]⟩

theorem sameBuffer_onPrevote (e : Backend) (v : Vote) : SameBuffer e (onPrevote N env e v) := by
  unfold onPrevote onPolka
  dsimp only
  split_ifs <;> exact ⟨by simp [toPrecommit, lockOn], by simp [toPrecommit, lockOn]⟩

/-- A precommit changes the round only with the height, and then the buffer is empty. -/
theorem onPrecommit_buffer (e : Backend) (v : Vote) :
    SameBuffer e (final (onPrecommit N env e v)) ∨ (final (onPrecommit N env e v)).futureVotes = [] := by
  have hrefl : SameBuffer e e := ⟨rfl, rfl⟩
  unfold onPrecommit
  split
  · exact .inl hrefl
  dsimp only
  split
  · exact .inl hrefl
  split
  · exact .inl ⟨rfl, rfl⟩
  rename_i block hblock
  split
  · exact .inl ⟨rfl, rfl⟩
  unfold commitBlock
  dsimp only
  split
  · exact .inl ⟨rfl, rfl⟩
  split
  · exact .inl ⟨by simp [final, markCommit], by simp [final, markCommit]⟩
  · right
    have hp := proposing_spec N env (committed N env { e with precommitAt := none } block)
    exact hp.futureVotes.trans (committed_futureVotes N env _ block)

/-- The round that `Tick` counts up is one no vote in the buffer is for. -/
theorem Later.tick (h : Later e) (hok : Orderly N e env .tick) : Later (final (tick N env e)) := by
  unfold Tendermint.tick
  split
  · exact h
  have hsame := (@sameBuffer_tickPropose N env e).trans
    (@sameBuffer_tickPrevote N env (tickPropose N env e))
  unfold tickPrecommit
  dsimp only
  split_ifs with hel hstep
  · obtain ⟨hel', hcs⟩ := tick_precommit_arm hel hstep
    rw [hcs] at hstep
    have hnext := hok.timeout rfl hel' hstep
    refine Later.of_same ?_ (sameBuffer_proposeAndArm _)
    intro u hu
    simp only [enterRound, saveState_cs, saveState_futureVotes] at hu ⊢
    rw [hsame.round]
    exact hnext u (hsame.futureVotes ▸ hu)
  · exact h.of_same ⟨hsame.round, hsame.futureVotes⟩
  · exact h.of_same hsame

/-- The round that is skipped to is one no other vote in the buffer is for. -/
theorem Later.skip (h : Later e) (hr : e.cs.round < v.round)
    (hskip : skips N e v = true → ∀ u ∈ e.futureVotes, v.round ≤ u.round) :
    Later (final (checkFutureRoundSkip N env (bufferFutureVote e v) v.round)) := by
  have hbuf : ∀ u ∈ (bufferFutureVote e v).futureVotes, u ∈ e.futureVotes ∨ u = v := by
    intro u hu
    unfold bufferFutureVote at hu
    split_ifs at hu
    · exact .inl hu
    · exact (List.mem_append.mp hu).imp_right List.mem_singleton.mp
  unfold checkFutureRoundSkip
  dsimp only
  split_ifs with hq
  · intro u hu
    change u ∈ (bufferFutureVote e v).futureVotes at hu
    change (bufferFutureVote e v).cs.round < u.round
    rw [bufferFutureVote_cs]
    rcases hbuf u hu with hu | rfl
    · exact h u hu
    · exact hr
  · have hle := hskip (decide_eq_true (not_lt.mp hq))
    unfold skipToRound
    refine Later.of_same ?_ (sameBuffer_proposeAndArm _)
    intro u hu
    simp only [enterRound, saveState_cs, saveState_futureVotes] at hu ⊢
    obtain ⟨hmem, hne⟩ := List.mem_filter.mp hu
    rw [(quiet_writeAll N env _ _).futureVotes] at hmem
    have hne' : u.round ≠ v.round := of_decide_eq_true hne
    rcases hbuf u hmem with hu' | rfl
    · exact Int32.lt_of_le_of_ne (hle u hu') hne'.symm
    · exact absurd rfl hne'

theorem Later.vote (h : Later e)
    (hskip : e.cs.round < v.round → skips N e v = true → ∀ u ∈ e.futureVotes, v.round ≤ u.round) :
    Later (final (acceptVote N env e v)) := by
  have hwrite : SameBuffer e (write N env e (.saveVote v)) := ⟨by simp, by simp⟩
  unfold acceptVote
  split_ifs with hr hpast hfails
  · exact h.skip hr (hskip hr)
  · exact h.of_same hwrite
  · exact h
  · dsimp only
    split
    · exact h.of_same (hwrite.trans (sameBuffer_onPrevote _ v))
    · rcases @onPrecommit_buffer N env (write N env e (.saveVote v)) v with hsame | hnil
      · exact h.of_same (hwrite.trans hsame)
      · exact .of_nil hnil
    · exact h.of_same hwrite

theorem Later.step (h : Later e) (hok : Orderly N e env ev) : Later (final (step N env e ev)) := by
  cases ev with
  | pump =>
    simp only [Tendermint.step, pump]
    split
    · exact h
    · have hsame := @sameBuffer_proposeAndArm N env { e with started := true }
      exact h.of_same ⟨hsame.round, hsame.futureVotes⟩
  | enqueue entry => exact h.of_same ⟨by simp [Tendermint.step, final], by simp [Tendermint.step, final]⟩
  | tick => exact h.tick hok
  | inbound msg =>
    obtain ⟨i, payload⟩ := msg
    cases payload with
    | committedBlock b =>
      simp only [Tendermint.step, stepInbound]
      split <;> exact h
    | proposal prop =>
      simp only [Tendermint.step, stepInbound]
      split
      · exact h
      · exact h.of_same (sameBuffer_handleProposal e prop)
    | vote v =>
      by_cases hheard : e.started = true ∧ VoteOk N e v
      · rw [step_of_heard hheard.1 hheard.2]
        exact h.vote (hok.skip v (by rw [heardIn, if_pos hheard]; exact List.mem_singleton_self v))
      · rw [step_of_not_heard hheard]
        exact h

/-! ## Runs -/

/-- A replica with the votes it has heard. -/
structure Receiver where
  e : Backend
  heard : List Vote

/-- A replica takes a call that meets `ok`, and no vote fails to be saved. -/
def Receiver.Step (N : Node) (ok : Backend → Env → Event → Prop) (r r' : Receiver) : Prop :=
  ∃ env ev, (∀ v, env.fails (.saveVote v) = false) ∧ ok r.e env ev ∧ step N env r.e ev = .ok r'.e ∧
    r'.heard = r.heard ++ heardIn N r.e ev

/-- A replica that has been built from its store. -/
def Receiver.new (N : Node) (s : Store) : Receiver := ⟨newTendermintBackend N s, []⟩

theorem keeps_of_run {s : Store} {r : Receiver}
    (hrun : Relation.ReflTransGen (Receiver.Step N (Orderly N)) (.new N s) r) :
    Keeps r.e r.heard ∧ Later r.e := by
  induction hrun with
  | refl =>
    refine ⟨⟨nofun, ?_, ?_, ?_⟩, .of_nil rfl⟩ <;> exact fun _ h => absurd h List.not_mem_nil
  | @tail r r' _ hstep ih =>
    obtain ⟨env, ev, hfails, hok, hcall, hheard⟩ := hstep
    have hkeeps := ih.1.step hfails hok
    have hlater := ih.2.step hok
    rw [hcall] at hkeeps hlater
    rw [hheard]
    exact ⟨hkeeps, hlater⟩

/-- **No vote is lost**: in every run in which each call meets the condition, every vote that was heard
at the current height and is not for a later round has a row in the store. -/
theorem no_vote_lost {s : Store} {r : Receiver}
    (hrun : Relation.ReflTransGen (Receiver.Step N (Orderly N)) (.new N s) r) {v : Vote}
    (hv : v ∈ r.heard) (hheight : v.height = r.e.cs.height) (hround : v.round ≤ r.e.cs.round) :
    Stored r.e v := by
  obtain ⟨hkeeps, hlater⟩ := keeps_of_run hrun
  rcases hkeeps.kept v hv hheight with hstored | hbuffered
  · exact hstored
  · obtain ⟨u, hu, hkey⟩ := List.mem_map.mp hbuffered
    have hsame : u.round = v.round := congrArg (fun k => k.2.2.1) hkey
    exact absurd (hsame ▸ hlater u hu) (Int32.not_lt.mpr hround)

/-! ## Two runs -/

/-- Make calls at given times, as long as each passes `check`. -/
def Receiver.play (N : Node) (check : Receiver → Event → Bool) :
    Receiver → List (Nat × Event) → Option Receiver
  | r, [] => some r
  | r, (t, ev) :: calls =>
    if check r ev then
      match step N (clock t) r.e ev with
      | .ok e' => play N check ⟨e', r.heard ++ heardIn N r.e ev⟩ calls
      | .error _ => none
    else none

theorem Receiver.play_run {check : Receiver → Event → Bool} {ok : Backend → Env → Event → Prop}
    (hok : ∀ r t ev, check r ev = true → ok r.e (clock t) ev) {r r' : Receiver}
    {calls : List (Nat × Event)} (h : r.play N check calls = some r') :
    Relation.ReflTransGen (Receiver.Step N ok) r r' := by
  induction calls generalizing r with
  | nil =>
    obtain rfl := Option.some.inj h
    exact .refl
  | cons c calls ih =>
    obtain ⟨t, ev⟩ := c
    obtain ⟨hcheck, h⟩ := Option.ite_none_right_eq_some.mp h
    split at h
    case h_1 e' hstep =>
      refine .head ⟨clock t, ev, fun _ => rfl, hok r t ev hcheck, hstep, rfl⟩ (ih h)
    case h_2 => cases h

/-- Calls that are orderly: votes that come for the earliest round in the buffer, no proposals, and
timeouts only when the buffer is empty. -/
def inTurn (r : Receiver) : Event → Bool
  | .inbound ⟨_, .vote v⟩ => r.e.futureVotes.all fun u =>
    v.round ≤ u.round ∧ (u.round = v.round → u.voterDid = v.voterDid → u.type = v.type →
      u.threadId = v.threadId)
  | .inbound ⟨_, .proposal _⟩ => false
  | .tick => r.e.futureVotes = []
  | _ => true

theorem orderly_of_inTurn (r : Receiver) (t : Nat) (ev : Event) (h : inTurn r ev = true) :
    Orderly N r.e (clock t) ev := by
  have hvote : ∀ v ∈ heardIn N r.e ev, ∀ u ∈ r.e.futureVotes, v.round ≤ u.round ∧
      (u.round = v.round → u.voterDid = v.voterDid → u.type = v.type → u.threadId = v.threadId) := by
    intro v hv u hu
    obtain ⟨-, -, i, rfl⟩ := mem_heardIn hv
    exact of_decide_eq_true (List.all_eq_true.mp h u hu)
  refine ⟨?_, ?_, fun v hv _ _ u hu => (hvote v hv u hu).1, fun v hv u hu => (hvote v hv u hu).2⟩
  · rintro ⟨i, payload⟩ prop block rfl rfl
    cases h
  · rintro rfl _ _ u hu
    have hnil : r.e.futureVotes = [] := of_decide_eq_true h
    rw [hnil] at hu
    exact absurd hu List.not_mem_nil

namespace Quartet

/-- A prevote of `did3` for round 1. -/
def early : Vote where
  threadId := "t"
  height := 1
  round := 1
  type := .prevote
  blockHash := "aaaaaaaa"
  voterDid := did3
  signature := hexEncode (checksum.sign (key 3) (voteSigData "t" 1 1 .prevote "aaaaaaaa"))

/-- The vote comes in round 0, and `did1` is brought to round 1 by timeouts. -/
def timeOut : List (Nat × Event) :=
  [(0, .pump), (1, .inbound ⟨"t", .vote early⟩), (2000, .tick), (3000, .tick), (4000, .tick)]

/-- The vote comes in round 0, and `did1` skips to round 1 on a quorum of prevotes. -/
def skipAhead : List (Nat × Event) :=
  [(0, .pump), (1, .inbound ⟨"t", .vote early⟩), (2, peerVote 2 did2 1 .prevote "aaaaaaaa"),
    (3, peerVote 4 did4 1 .prevote "aaaaaaaa")]

/-- A vote is lost when a timeout brings the replica to its round. -/
theorem early_vote_lost : ∃ r, Relation.ReflTransGen
      (Receiver.Step (allCorrect.node did1) fun _ _ _ => True) (.new (allCorrect.node did1) .empty) r ∧
    early ∈ r.heard ∧ early.height = r.e.cs.height ∧ early.round ≤ r.e.cs.round ∧
    ¬Stored r.e early := by
  have hplay : ((Receiver.new (allCorrect.node did1) .empty).play (allCorrect.node did1)
      (fun _ _ => true) timeOut).any (fun r => early ∈ r.heard ∧ early.height = r.e.cs.height ∧
        early.round ≤ r.e.cs.round ∧ ¬Stored r.e early) = true := by
    decide +kernel
  obtain ⟨r, hr, hlost⟩ := (Option.any_eq_true _ _).mp hplay
  exact ⟨r, Receiver.play_run (fun _ _ _ _ => trivial) hr, of_decide_eq_true hlost⟩

theorem no_vote_lost_skip : ∃ r, Relation.ReflTransGen
      (Receiver.Step (allCorrect.node did1) (Orderly (allCorrect.node did1)))
      (.new (allCorrect.node did1) .empty) r ∧
    early ∈ r.heard ∧ early.height = r.e.cs.height ∧ early.round ≤ r.e.cs.round ∧ Stored r.e early := by
  have hplay : ((Receiver.new (allCorrect.node did1) .empty).play (allCorrect.node did1)
      inTurn skipAhead).any (fun r => early ∈ r.heard ∧ early.height = r.e.cs.height ∧
        early.round ≤ r.e.cs.round) = true := by
    decide +kernel
  obtain ⟨r, hr, hheard⟩ := (Option.any_eq_true _ _).mp hplay
  obtain ⟨hmem, hheight, hround⟩ := of_decide_eq_true hheard
  have hrun : Relation.ReflTransGen (Receiver.Step (allCorrect.node did1)
      (Orderly (allCorrect.node did1))) (.new (allCorrect.node did1) .empty) r :=
    Receiver.play_run orderly_of_inTurn hr
  exact ⟨r, hrun, hmem, hheight, hround, no_vote_lost hrun hmem hheight hround⟩

end Quartet

end MoltMesh.Tendermint

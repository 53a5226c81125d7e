import MoltMesh.Raft.Calls
import MoltMesh.Raft.Start
import MoltMesh.Tendermint.Script
import MoltMesh.Tendermint.Validity

/-!
# Several threads in one database

A daemon runs the backends of many threads over one database.  A consensus message
is handed to the backend of the thread its envelope names; what it carries inside
names a thread again, and that is the one under which votes and blocks are stored.
As long as the two are the same (`Within`), a backend leaves the votes and blocks
of the other threads as they are, and the votes of a thread are those of its
replicas.
-/

namespace MoltMesh

open MoltMesh.Lib Pb

variable {s : Store}

namespace Store

variable {s s' s'' : Store} {T : String}

/-- The stored votes of a thread. -/
def votesOf (s : Store) (T : String) : List Vote := s.votes.select fun v => v.threadId = T

/-- The votes and blocks of all threads other than `T` are the same. -/
structure SameElsewhere (T : String) (s s' : Store) : Prop where
  votes : ∀ U, U ≠ T → s'.votesOf U = s.votesOf U
  blocks : ∀ U, U ≠ T → s'.blockRows U = s.blockRows U

namespace SameElsewhere

theorem of_eq (hvotes : s'.votes = s.votes) (hblocks : s'.blocks = s.blocks) :
    SameElsewhere T s s' where
  votes _ _ := by rw [votesOf, hvotes]; rfl
  blocks _ _ := by rw [blockRows, hblocks]; rfl

theorem refl (s : Store) : SameElsewhere T s s := of_eq rfl rfl

theorem trans (h : SameElsewhere T s s') (h' : SameElsewhere T s' s'') : SameElsewhere T s s'' where
  votes U hU := (h'.votes U hU).trans (h.votes U hU)
  blocks U hU := (h'.blocks U hU).trans (h.blocks U hU)

theorem saveVote {v : Vote} (hv : v.threadId = T) : SameElsewhere T s (s.saveVote v) where
  votes _ hU := Table.select_insertOrIgnore_of_false (decide_eq_false fun h => hU (h.symm.trans hv))
  blocks _ _ := rfl

theorem saveBlock {b : ThreadBlock} (hb : b.threadId = T) : SameElsewhere T s (s.saveBlock b) where
  votes _ _ := rfl
  blocks _ hU := blockRows_saveBlock_of_ne fun h => hU (h.symm.trans hb)

end SameElsewhere

end Store

/-! ## A Tendermint backend -/

namespace Tendermint

open Store (SameElsewhere)

variable {N : Node} {env : Env} {P : Proviso} {e e' : Backend}

/-- What a message carries is of thread `T`. -/
def Within (T : String) : Payload → Prop
  | .proposal p => ∀ b ∈ p.block, b.threadId = T
  | .vote v => v.threadId = T
  | .committedBlock b => b.threadId = T

/-- What a backend holds in memory is of its thread, and its votes are from replicas. -/
structure Own (N : Node) (e : Backend) : Prop where
  votes : ∀ v ∈ e.futureVotes, v.threadId = N.thread.id ∧ v.voterDid ∈ N.thread.replicaDids
  proposal : ∀ b ∈ e.proposal, b.threadId = N.thread.id

/-- The messages a backend is handed are of its thread. -/
def withinProviso (N : Node) : Proviso where
  heard _ p := Within N.thread.id p
  advance _ := True

theorem sameElsewhere_write {w : Write} (hvote : ∀ v, w = .saveVote v → v.threadId = N.thread.id)
    (hblock : ∀ b, w = .saveBlock b → b.threadId = N.thread.id) :
    SameElsewhere N.thread.id e.store (write N env e w).store := by
  unfold write
  split
  · exact .refl _
  · cases w with
    | saveVote v => exact .saveVote (hvote v rfl)
    | saveBlock b => exact .saveBlock (hblock b rfl)
    | saveConsensusState cs => exact .of_eq rfl rfl
    | deletePending id => exact .of_eq rfl rfl
    | enqueueEntry entry now => exact .of_eq rfl rfl

theorem sameElsewhere_writeAll {vs : List Vote} (h : ∀ v ∈ vs, v.threadId = N.thread.id)
    (e : Backend) : SameElsewhere N.thread.id e.store
      (writeAll N env e (vs.map .saveVote)).store := by
  induction vs generalizing e with
  | nil => exact .refl _
  | cons v vs ih =>
    have hv : SameElsewhere N.thread.id e.store (write N env e (.saveVote v)).store := by
      refine sameElsewhere_write (fun u hu => ?_) fun b hb => by cases hb
      obtain rfl := Write.saveVote.inj hu
      exact h v List.mem_cons_self
    exact hv.trans (ih (fun u hu => h u (List.mem_cons_of_mem v hu)) _)

theorem sameElsewhere_sendVote (N : Node) (env : Env) (e : Backend) (ty : VoteType) (H : String) :
    SameElsewhere N.thread.id e.store (sendVote N env e ty H).store := by
  refine sameElsewhere_write (w := .saveVote (newVote N e ty H)) (fun v hv => ?_) fun b hb => by cases hb
  rw [← Write.saveVote.inj hv]
  rfl

theorem sameElsewhere_saveState (N : Node) (env : Env) (e : Backend) :
    SameElsewhere N.thread.id e.store (saveState N env e).store :=
  sameElsewhere_write (fun v hv => by cases hv) fun b hb => by cases hb

theorem sameElsewhere_proposing (N : Node) (env : Env) (e : Backend) :
    SameElsewhere N.thread.id e.store (proposing N env e).store :=
  .of_eq (proposing_spec N env e).votes (proposing_spec N env e).blocks

theorem sameElsewhere_prevote (N : Node) (env : Env) (e : Backend) (H : String) : SameElsewhere N.thread.id e.store
    (toPrevote N env (sendVote N env e .prevote H)).store := by
  have hvote := sameElsewhere_sendVote N env e .prevote H
  generalize sendVote N env e .prevote H = e₁ at hvote ⊢
  exact hvote.trans (sameElsewhere_saveState N env { e₁ with cs := { e₁.cs with step := .prevote } })

theorem sameElsewhere_precommit (N : Node) (env : Env) (e : Backend) (H : String) : SameElsewhere N.thread.id e.store
    (toPrecommit N env (sendVote N env e .precommit H)).store := by
  have hvote := sameElsewhere_sendVote N env e .precommit H
  generalize sendVote N env e .precommit H = e₁ at hvote ⊢
  exact hvote.trans (sameElsewhere_saveState N env { e₁ with cs := { e₁.cs with step := .precommit } })

theorem sameElsewhere_nextRound (N : Node) (env : Env) (e : Backend) (r : Int32) : SameElsewhere N.thread.id e.store
    (proposing N env (enterRound N env e r)).store := by
  have hround := sameElsewhere_saveState N env
    { e with cs := { e.cs with round := r, step := .propose } }
  exact hround.trans (sameElsewhere_proposing N env _)

theorem sameElsewhere_saveBlock {block : ThreadBlock} (hb : block.threadId = N.thread.id) :
    SameElsewhere N.thread.id e.store
      (write N env (markCommit e (stamped env block)) (.saveBlock (stamped env block))).store := by
  unfold write
  split
  · exact .refl _
  · exact .saveBlock hb

/-- An act leaves the votes and blocks of other threads alone. -/
theorem Act.sameElsewhere (hact : Act N env (withinProviso N) e e') (hown : Own N e) :
    SameElsewhere N.thread.id e.store e'.store := by
  cases hact with
  | arm p v c => exact .refl _
  | start hs => exact sameElsewhere_proposing N env { e with started := true }
  | enqueue entry => exact sameElsewhere_write (fun v hv => by cases hv) fun b hb => by cases hb
  | @saveVote v hv hh hr =>
    refine sameElsewhere_write (fun u hu => ?_) fun b hb => by cases hb
    rw [← Write.saveVote.inj hu]
    exact hh
  | buffer hv hh hr => exact .refl _
  | @flush r hr =>
    exact sameElsewhere_writeAll (fun v hv => (hown.votes v (List.mem_filter.mp hv).1).1) e
  | @accept prop block hp hh =>
    rcases acceptProposal_cases N env e prop block with ⟨-, -, heq⟩ | ⟨-, -, heq⟩ | ⟨-, heq⟩
    · rw [heq]
      exact sameElsewhere_prevote N env { e with proposal := some block } ""
    · rw [heq]
      exact sameElsewhere_prevote N env (unlock { e with proposal := some block }) block.blockHash
    · rw [heq]
      exact sameElsewhere_prevote N env { e with proposal := some block } block.blockHash
  | prevoteNil hs => exact sameElsewhere_prevote N env e ""
  | precommitNil hs => exact sameElsewhere_precommit N env e ""
  | @precommit H hs hw hp hn => exact sameElsewhere_precommit N env (lockOn e H) H
  | nextRound hst hs ha => exact sameElsewhere_nextRound N env e _
  | @skip r hst hr => exact sameElsewhere_nextRound N env e r
  | commitFails hc => exact .refl _
  | @commitPanics block hc hf hl => exact sameElsewhere_saveBlock (hown.proposal block hc.proposal)
  | @commit block hst hc hf hl =>
    have hsave : SameElsewhere N.thread.id e.store
        (write N env (markCommit e (stamped env block)) (.saveBlock (stamped env block))).store :=
      sameElsewhere_saveBlock (hown.proposal block hc.proposal)
    unfold committed
    generalize write N env (markCommit e (stamped env block)) (.saveBlock (stamped env block)) = e₁
      at hsave ⊢
    have hheight := sameElsewhere_saveState N env
      { e₁ with cs := .start (block.height + 1), proposal := none, futureVotes := [] }
    exact (hsave.trans hheight).trans
      (sameElsewhere_proposing N env (armPropose N env (enterHeight N env e₁ (block.height + 1))))

/-- The buffer holds what it held and what is heard. -/
theorem Act.mem_futureVotes (hact : Act N env P e e') {v : Vote} (hv : v ∈ e'.futureVotes) :
    v ∈ e.futureVotes ∨ (VoteOk N e v ∧ P.heard e (.vote v)) := by
  have hsame (h : e'.futureVotes = e.futureVotes) : v ∈ e.futureVotes := h ▸ hv
  cases hact with
  | arm p v c => exact .inl hv
  | start hs => exact .inl (hsame (proposing_spec N env { e with started := true }).futureVotes)
  | enqueue entry => exact .inl (hsame (by simp))
  | saveVote hok hh hr => exact .inl (hsame (by simp))
  | @buffer u hok hh hr =>
    rcases List.mem_append.mp hv with hv | hv
    · exact .inl hv
    · rw [List.mem_singleton.mp hv]
      exact .inr ⟨hok, hh⟩
  | flush hr => exact .inl (mem_futureVotes_flushFutureVotes N env e hv)
  | accept hp hh =>
    obtain ⟨H, -, hvote⟩ := votes_acceptProposal hp hh
    exact .inl (hsame hvote.futureVotes)
  | prevoteNil hs => exact .inl (hsame (by simp [toPrevote]))
  | precommitNil hs => exact .inl (hsame (by simp [toPrecommit]))
  | precommit hs hw hp hn => exact .inl (hsame (by simp [toPrecommit, lockOn]))
  | nextRound hst hs ha =>
    exact .inl (hsame ((proposing_spec N env _).futureVotes.trans (saveState_futureVotes N env _)))
  | skip hst hr =>
    exact .inl (hsame ((proposing_spec N env _).futureVotes.trans (saveState_futureVotes N env _)))
  | commitFails hc => exact .inl hv
  | commitPanics hc hf hl => exact .inl (hsame (by simp [markCommit]))
  | @commit block hst hc hf hl =>
    rw [(proposing_spec N env (committed N env e block)).futureVotes, committed_futureVotes] at hv
    exact absurd hv List.not_mem_nil

theorem Act.own (hact : Act N env (withinProviso N) e e') (hown : Own N e) : Own N e' where
  votes v hv := by
    rcases hact.mem_futureVotes hv with hv | ⟨hok, hheard⟩
    · exact hown.votes v hv
    · exact ⟨hheard, of_decide_eq_true hok.known⟩
  proposal := by
    have hstay (h : e'.proposal = e.proposal) : ∀ b ∈ e'.proposal, b.threadId = N.thread.id :=
      h ▸ hown.proposal
    have haccept {prop : Proposal} {block : ThreadBlock} (hok : ProposalOk N e prop block)
        (hheard : Within N.thread.id (.proposal prop)) (h : e'.proposal = some block) :
        ∀ b ∈ e'.proposal, b.threadId = N.thread.id := by
      intro b hb
      rw [h] at hb
      exact hheard b (hok.carries.trans hb)
    cases hact.deed.moves with
    | stay _ h => exact hstay h
    | accept hok hheard _ h => exact haccept hok hheard h
    | unlock hok hheard _ _ _ h => exact haccept hok hheard h
    | prevoteNil _ _ h => exact hstay h
    | precommitNil _ _ h => exact hstay h
    | lock _ _ _ _ h => exact hstay h
    | nextRound _ _ _ h => exact hstay h
    | skip _ _ h => exact hstay h
    | @stamp block hok _ h =>
      intro b hb
      rw [h] at hb
      rw [← Option.some.inj hb]
      exact hown.proposal block hok.proposal
    | commit _ _ h =>
      rw [h]
      exact fun b hb => by cases hb

/-- A vote that is stored by an act is of the thread and from a replica. -/
theorem Act.mem_votes (hact : Act N env (withinProviso N) e e') (hown : Own N e)
    (hself : N.id.did ∈ N.thread.replicaDids) {v : Vote} (hv : v ∈ e'.store.votes.rows) :
    v ∈ e.store.votes.rows ∨
      (v.threadId = N.thread.id ∧ v.voterDid ∈ N.thread.replicaDids) := by
  rcases hact.deed.voting with hno | ⟨ty, H, -, hvote⟩
  · rcases hno.stored v (.inl hv) with (hv | hv) | ⟨hok, hheard⟩
    · exact .inl hv
    · exact .inr (hown.votes v hv)
    · exact .inr ⟨hheard, of_decide_eq_true hok.known⟩
  · rcases hvote.stored v hv with hv | rfl
    · exact .inl hv
    · exact .inr ⟨rfl, hself⟩

/-- What a step of a backend leaves of other threads, and which votes it stores. -/
theorem step_within {ev : Event} (hown : Own N e) (hself : N.id.did ∈ N.thread.replicaDids)
    (hev : ∀ msg, ev = .inbound msg → Within N.thread.id msg.payload) :
    Own N (final (step N env e ev)) ∧
      SameElsewhere N.thread.id e.store (final (step N env e ev)).store ∧
      ∀ v ∈ (final (step N env e ev)).store.votes.rows, v ∈ e.store.votes.rows ∨
        (v.threadId = N.thread.id ∧ v.voterDid ∈ N.thread.replicaDids) := by
  have hacts : Acts N env (withinProviso N) e (final (step N env e ev)) :=
    step_acts ev hev fun _ _ _ => trivial
  generalize final (step N env e ev) = e' at hacts
  induction hacts with
  | refl => exact ⟨hown, .refl _, fun v hv => .inl hv⟩
  | tail _ hact ih =>
    obtain ⟨hown', hsame, hvotes⟩ := ih
    refine ⟨hact.own hown', hsame.trans (hact.sameElsewhere hown'), fun v hv => ?_⟩
    rcases hact.mem_votes hown' hself hv with hv | hv
    · exact hvotes v hv
    · exact .inr hv

end Tendermint

/-! ## A Raft backend -/

namespace Raft

open Raftpb
open Store (SameElsewhere)

variable {N : Node} {env : Env} {e e' : Backend}

theorem votes_ackPending (ids : List Int) : (s.ackPending ids).votes = s.votes := by
  induction ids generalizing s with
  | nil => rfl
  | cons id ids ih => exact (ih (s := (s.deletePending id).deleteClaim id)).trans rfl

theorem votes_releasePendingClaimIDs (ids : List Int) :
    (s.releasePendingClaimIDs ids).votes = s.votes := by
  induction ids generalizing s with
  | nil => rfl
  | cons id ids ih => exact (ih (s := s.deleteClaim id)).trans rfl

/-- The Raft backend does not touch the votes. -/
theorem votes_apply (T : String) (s : Store) (a : Effect) : (a.apply T s).votes = s.votes := by
  cases a with
  | write w =>
    cases w with
    | appendBlock ids b =>
      change (((s.appendBlockAndAckPending T ids fun _ _ => b).map Prod.snd).getD s).votes = _
      rw [Store.appendBlockAndAckPending_eq]
      cases s.blocks.insert (.ofBlock b) with
      | none => rfl
      | some blocks => exact (votes_ackPending (s := { s with blocks }) ids).trans rfl
    | releasePendingClaimIDs ids => exact votes_releasePendingClaimIDs ids
    | _ => rfl
  | _ => rfl

theorem votes_replay (T : String) (s : Store) (δ : List Effect) : (replay T s δ).votes = s.votes := by
  induction δ generalizing s with
  | nil => rfl
  | cons a δ ih => exact (ih (a.apply T s)).trans (votes_apply T s a)

/-- A committed entry stores a block of the thread. -/
theorem applyEntry_blockRows (N : Node) (env : Env) (e : Backend) (entry : Entry) {U : String}
    (hU : U ≠ e.thread.id) :
    (applyEntry N env e entry).store.blockRows U = e.store.blockRows U := by
  obtain ⟨δ, hδ⟩ := applyEntry_trail N env e entry
  generalize applyEntry N env e entry = e' at hδ
  cases hδ with
  | skip hδ hno => rw [Store.blockRows, hδ.sameLog.blocks]; rfl
  | @commit l ids did b s' e₁ δ hblock happ hw hs hmem e₂ hδ he =>
    rw [he]
    change e₂.store.blockRows U = _
    rw [Store.blockRows, hδ.sameLog.blocks, hs]
    rw [Store.appendBlockAndAckPending_eq] at happ
    obtain ⟨blocks, hins, heq⟩ := Option.map_eq_some_iff.mp happ
    obtain ⟨-, rfl⟩ := Prod.mk.inj heq
    rw [Store.blocks_ackPending, Table.select_of_insert hins, if_neg, List.append_nil]
    · rfl
    · rw [decide_eq_true_eq]
      exact fun h => hU h.symm

theorem applyAll_blockRows (N : Node) (env : Env) (e : Backend) (entries : List Entry) {U : String}
    (hU : U ≠ e.thread.id) :
    (entries.foldl (applyEntry N env) e).store.blockRows U = e.store.blockRows U := by
  induction entries generalizing e with
  | nil => rfl
  | cons entry entries ih =>
    obtain ⟨δ, hδ⟩ := applyEntry_trail N env e entry
    have hU' : U ≠ (applyEntry N env e entry).thread.id := hδ.logged.threadId ▸ hU
    exact (ih (applyEntry N env e entry) hU').trans (applyEntry_blockRows N env e entry hU)

/-- What a step of a backend leaves of other threads. -/
theorem step_within (N : Node) (env : Env) (e : Backend) {ev : Event}
    (hev : ∀ b, ev = .inbound (.committedBlock b) → b.threadId = e.thread.id) :
    (final (step N env e ev)).thread.id = e.thread.id ∧
      (final (step N env e ev)).store.votes = e.store.votes ∧
      SameElsewhere e.thread.id e.store (final (step N env e ev)).store := by
  have htrail := step_trail N env e ev
  generalize final (step N env e ev) = e' at htrail ⊢
  obtain ⟨δ, hδ⟩ := htrail.logged
  have hvotes : e'.store.votes = e.store.votes := by rw [hδ.store, votes_replay]
  refine ⟨hδ.threadId, hvotes, fun U _ => by rw [Store.votesOf, hvotes]; rfl, fun U hU => ?_⟩
  have hsame {s : Store} (h : s.blocks = e.store.blocks) : s.blockRows U = e.store.blockRows U := by
    rw [Store.blockRows, h]
    rfl
  rcases htrail.writers with ⟨rd, r, p, -, hr, rfl⟩ | ⟨b, γ, rfl, hγ⟩ | ⟨γ, hlog, hspares⟩
  · change (ended r).store.blockRows U = _
    rcases hr.blocks with ⟨hblocks, -⟩ | ⟨e₁, γ, hp, heq⟩
    · exact hsame hblocks
    · rw [heq, applyAll_blockRows N env e₁ _ (hp.logged.threadId ▸ hU)]
      exact hsame hp.blocks
  · cases hγ with
    | held hread hheld he => rw [he]
    | failed w he => rw [he]; rfl
    | @saved e₁ e₂ γ hfree hw hmem hγ he =>
      rw [he]
      change e₂.store.blockRows U = _
      rw [Store.blockRows, hγ.sameLog.blocks, hw.store]
      exact Store.blockRows_saveBlock_of_ne fun h => hU (h.symm.trans (hev b rfl))
  · exact hsame (by rw [hlog.store, blocks_replay hspares])

end Raft

/-! ## One daemon -/

/-- `decodeConsensusMsg` of a message that has been parsed: it is dropped when its envelope names
another thread. -/
def decodeConsensusMsg (threadID : String) (cm : ConsensusMsg) : Option ConsensusMsg :=
  if cm.threadId ≠ threadID then none else some cm

/-- The backend of a thread. -/
inductive Running
  | tendermint (N : Tendermint.Node) (e : Tendermint.Backend)
  | raft (N : Raft.Node) (e : Raft.Backend)

/-- A database, and the threads whose backends run over it. -/
structure Host where
  store : Store
  running : String → Option Running

namespace Host

/-- The backend of a thread after a step, and the database it has left. -/
def put (H : Host) (T : String) (r : Running) (s : Store) : Host :=
  ⟨s, Function.update H.running T (some r)⟩

theorem running_put_self (H : Host) (T : String) (r : Running) (s : Store) :
    (H.put T r s).running T = some r := by
  simp [put]

theorem running_put_of_ne {H : Host} {T U : String} {r : Running} (h : U ≠ T) :
    (H.put T r s).running U = H.running U := by
  simp [put, h]

/-- The steps of the backend of thread `T`, whose replicas are `replicas T`: it is built, or it takes a
step on the common database.  A message is one that has passed `decodeConsensusMsg` and is `ok`. -/
inductive Step (replicas : String → List String) (ok : String → Payload → Prop) (T : String) :
    Host → Host → Prop
  | newTendermint {H : Host} {N : Tendermint.Node} (hid : N.thread.id = T)
    (hdids : N.thread.replicaDids = replicas T) (hself : N.id.did ∈ replicas T) :
    Step replicas ok T H (H.put T (.tendermint N (Tendermint.newTendermintBackend N H.store)) H.store)
  | newRaft {H : Host} {N : Raft.Node} {env : Raft.Env} {thread : Thread} {start : Raft.NodeStart}
    {e : Raft.Backend} (hid : thread.id = T)
    (hnew : Raft.newRaftBackend N env thread H.store = .ok (start, e)) :
    Step replicas ok T H (H.put T (.raft N e) e.store)
  | tendermint {H : Host} {N : Tendermint.Node} {env : Tendermint.Env} {e e' : Tendermint.Backend}
    {ev : Tendermint.Event} (hrunning : H.running T = some (.tendermint N e))
    (hev : ∀ msg, ev = .inbound msg → decodeConsensusMsg T msg = some msg ∧ ok T msg.payload)
    (hstep : Tendermint.final (Tendermint.step N env { e with store := H.store } ev) = e') :
    Step replicas ok T H (H.put T (.tendermint N e') e'.store)
  | raft {H : Host} {N : Raft.Node} {env : Raft.Env} {e e' : Raft.Backend} {ev : Raft.Event}
    (hrunning : H.running T = some (.raft N e))
    (hev : ∀ b, ev = .inbound (.committedBlock b) →
      decodeConsensusMsg T ⟨T, .committedBlock b⟩ = some ⟨T, .committedBlock b⟩ ∧
        ok T (.committedBlock b))
    (hstep : Raft.final (Raft.step N env { e with store := H.store } ev) = e') :
    Step replicas ok T H (H.put T (.raft N e') e'.store)

/-- A step of any of the threads. -/
def AnyStep (replicas : String → List String) (ok : String → Payload → Prop) (H H' : Host) : Prop :=
  ∃ T, Step replicas ok T H H'

/-- What holds of the backend of a thread. -/
def Fits (replicas : String → List String) (T : String) : Running → Prop
  | .tendermint N e => N.thread.id = T ∧ N.thread.replicaDids = replicas T ∧ N.id.did ∈ replicas T ∧
    Tendermint.Own N e
  | .raft _ e => e.thread.id = T

/-- What holds of a daemon in every state of a run: each backend is of its thread, and each vote is
from a replica of the thread it is stored under. -/
structure Sound (replicas : String → List String) (H : Host) : Prop where
  running : ∀ T r, H.running T = some r → Fits replicas T r
  votes : ∀ v ∈ H.store.votes.rows, v.voterDid ∈ replicas v.threadId

variable {replicas : String → List String} {T : String} {H H' : Host}

theorem Sound.put (h : Sound replicas H) {r : Running} (hr : Fits replicas T r)
    (hvotes : ∀ v ∈ s.votes.rows, v ∈ H.store.votes.rows ∨
      (v.threadId = T ∧ v.voterDid ∈ replicas T)) : Sound replicas (H.put T r s) where
  running U r' hr' := by
    by_cases hU : U = T
    · subst hU
      rw [running_put_self] at hr'
      exact Option.some.inj hr' ▸ hr
    · rw [running_put_of_ne hU] at hr'
      exact h.running U r' hr'
  votes v hv := by
    rcases hvotes v hv with hv | ⟨rfl, hv⟩
    · exact h.votes v hv
    · exact hv

/-- A step of the backend of a thread keeps the daemon sound and the other threads as they are. -/
theorem Sound.step (h : Sound replicas H) (hstep : Step replicas Tendermint.Within T H H') :
    Sound replicas H' ∧ Store.SameElsewhere T H.store H'.store := by
  cases hstep with
  | @newTendermint N hid hdids hself =>
    refine ⟨h.put ⟨hid, hdids, hself, ?_, ?_⟩ fun v hv => .inl hv, .refl _⟩
    · exact fun v hv => absurd hv List.not_mem_nil
    · exact fun b hb => by cases hb
  | @newRaft N env thread start e hid hnew =>
    obtain ⟨hthread, -, hstore, -, -⟩ := Raft.newRaftBackend_eq_ok hnew
    have hvotes : e.store.votes = H.store.votes := by rw [hstore]; rfl
    refine ⟨h.put ((congrArg Thread.id hthread).trans hid) fun v hv => .inl (hvotes ▸ hv), ?_⟩
    exact .of_eq hvotes ((congrArg Store.blocks hstore).trans rfl)
  | @tendermint N env e e' ev hrunning hev hstep =>
    obtain ⟨rfl, hdids, hself, hown⟩ := h.running _ _ hrunning
    have hown' : Tendermint.Own N { e with store := H.store } := ⟨hown.votes, hown.proposal⟩
    obtain ⟨hown'', hsame, hvotes⟩ := Tendermint.step_within hown' (hdids.symm ▸ hself)
      fun msg hmsg => (hev msg hmsg).2
    rw [hstep] at hown'' hsame hvotes
    refine ⟨h.put ⟨rfl, hdids, hself, hown''⟩ fun v hv => ?_, hsame⟩
    exact hdids ▸ hvotes v hv
  | @raft N env e e' ev hrunning hev hstep =>
    have hid : e.thread.id = T := h.running _ _ hrunning
    subst hid
    obtain ⟨hid', hvotes, hsame⟩ := Raft.step_within N env { e with store := H.store }
      fun b hb => (hev b hb).2
    rw [hstep] at hid' hvotes hsame
    exact ⟨h.put hid' fun v hv => .inl (hvotes ▸ hv), hsame⟩

/-- **Threads are isolated**: in every run in which the messages of a thread carry votes and blocks of
that thread, a step of a thread leaves the votes and blocks of all others, and the votes of a thread
are from its replicas. -/
theorem threads_isolated {H₀ : Host} (hstart : ∀ T, H₀.running T = none)
    (hvotes : ∀ v ∈ H₀.store.votes.rows, v.voterDid ∈ replicas v.threadId)
    (hrun : Relation.ReflTransGen (AnyStep replicas Tendermint.Within) H₀ H) :
    (∀ T H', Step replicas Tendermint.Within T H H' → ∀ U, U ≠ T →
      H'.store.votesOf U = H.store.votesOf U ∧ H'.store.blockRows U = H.store.blockRows U) ∧
    ∀ U height round vtype, ∀ v ∈ H.store.getVotes U height round vtype, v.voterDid ∈ replicas U := by
  have hsound : Sound replicas H := by
    induction hrun with
    | refl =>
      refine ⟨fun T r hr => ?_, hvotes⟩
      rw [hstart T] at hr
      cases hr
    | tail _ hstep ih =>
      obtain ⟨T, hstep⟩ := hstep
      exact (ih.step hstep).1
  constructor
  · intro T H' hstep U hU
    have hsame := (hsound.step hstep).2
    exact ⟨hsame.votes U hU, hsame.blocks U hU⟩
  · intro U height round vtype v hv
    obtain ⟨hmem, hsel⟩ := Table.mem_select.mp hv
    rw [← (of_decide_eq_true hsel).1]
    exact hsound.votes v hmem

/-! ## Two threads -/

namespace Pair

open Tendermint.Quartet (did1 did2 did3 did4 checksum key)

/-- Thread `t` has four replicas, thread `u` one of them. -/
def dids (T : String) : List String := if T = "t" then [did1, did2, did3, did4] else [did1]

/-- The first replica. -/
def node : Tendermint.Node := Tendermint.Quartet.allCorrect.node did1

/-- The backend of `t` once it has been pumped. -/
def pumped : Tendermint.Backend :=
  Tendermint.final (Tendermint.step node (Tendermint.clock 1)
    (Tendermint.newTendermintBackend node .empty) .pump)

/-- The daemon that runs it. -/
def host : Host :=
  (put ⟨.empty, fun _ => none⟩ "t"
    (.tendermint node (Tendermint.newTendermintBackend node .empty)) .empty).put "t"
    (.tendermint node pumped) pumped.store

theorem run_host (ok : String → Payload → Prop) :
    Relation.ReflTransGen (AnyStep dids ok) ⟨.empty, fun _ => none⟩ host := by
  have hself : node.id.did ∈ dids "t" := by decide +kernel
  refine .tail (.single ⟨"t", .newTendermint rfl rfl hself⟩) ⟨"t", ?_⟩
  exact .tendermint (running_put_self _ _ _ _) (fun msg hmsg => by cases hmsg) rfl

/-- A nil prevote of `did2` under the name of a thread. -/
def voteIn (T : String) : ConsensusMsg where
  threadId := "t"
  payload := .vote {
    threadId := T, height := 1, round := 0, type := .prevote, blockHash := "", voterDid := did2,
    signature := hexEncode (checksum.sign (key 2) (voteSigData T 1 0 .prevote "")) }

/-- The backend of `t` after the vote. -/
def voted (T : String) : Tendermint.Backend :=
  Tendermint.final (Tendermint.step node (Tendermint.clock 1) pumped (.inbound (voteIn T)))

theorem step_voted {ok : String → Payload → Prop} (hok : ok "t" (voteIn T).payload) :
    Step dids ok "t" host (host.put "t" (.tendermint node (voted T)) (voted T).store) := by
  refine .tendermint (running_put_self _ _ _ _) (fun msg hmsg => ?_) rfl
  obtain rfl := Tendermint.Event.inbound.inj hmsg
  exact ⟨rfl, hok⟩

/-- The daemon of a replica that runs `t` as a Raft thread. -/
def raftHost : Host :=
  put ⟨.empty, fun _ => none⟩ "t" (.raft (Raft.Trio.node 0) (Raft.Trio.first 0)) (Raft.Trio.first 0).store

/-- A block under the name of `u`. -/
def foreign : ThreadBlock where
  threadId := "u"
  height := 1
  round := 0
  parentHash := ""
  entries := []
  proposerDid := "d2"
  proposerSig := ""
  blockHash := "h"
  committedAt := 1

/-- Its backend after the block. -/
def blocked : Raft.Backend :=
  Raft.final (Raft.step (Raft.Trio.node 0) Raft.Trio.calm (Raft.Trio.first 0)
    (.inbound (.committedBlock foreign)))

/-- A vote and a block that are delivered to the backend of `t` are stored under `u`; the vote is not
from a replica of `u`. -/
theorem threads_mixed :
    (∃ H H', Relation.ReflTransGen (AnyStep dids fun _ _ => True) ⟨.empty, fun _ => none⟩ H ∧
      Step dids (fun _ _ => True) "t" H H' ∧ H.store.votesOf "u" = [] ∧
      ∃ v ∈ H'.store.getVotes "u" 1 0 .prevote, v.voterDid ∉ dids "u") ∧
    (∃ H H', Relation.ReflTransGen (AnyStep dids fun _ _ => True) ⟨.empty, fun _ => none⟩ H ∧
      Step dids (fun _ _ => True) "t" H H' ∧ H.store.blockRows "u" = [] ∧
      H'.store.blockRows "u" = [.ofBlock foreign]) := by
  constructor
  · refine ⟨host, _, run_host _, step_voted (T := "u") trivial, ?_⟩
    change pumped.store.votesOf "u" = [] ∧
      ∃ v ∈ (voted "u").store.getVotes "u" 1 0 .prevote, v.voterDid ∉ dids "u"
    decide +kernel
  · refine ⟨raftHost, raftHost.put "t" (.raft (Raft.Trio.node 0) blocked) blocked.store, ?_, ?_, ?_, ?_⟩
    · exact .single ⟨"t", .newRaft rfl (Raft.Trio.newRaftBackend_first 0)⟩
    · exact .raft (running_put_self _ _ _ _) (fun b _ => ⟨rfl, trivial⟩) rfl
    · rfl
    · rfl

theorem threads_isolated_voted :
    (∀ T H', Step dids Tendermint.Within T
        (host.put "t" (.tendermint node (voted "t")) (voted "t").store) H' → ∀ U, U ≠ T →
      H'.store.votesOf U = (voted "t").store.votesOf U ∧
        H'.store.blockRows U = (voted "t").store.blockRows U) ∧
    ∀ U height round vtype, ∀ v ∈ (voted "t").store.getVotes U height round vtype,
      v.voterDid ∈ dids U :=
  threads_isolated (fun _ => rfl) (fun _ hv => absurd hv List.not_mem_nil)
    (.tail (run_host _) ⟨"t", step_voted rfl⟩)

end Pair

end Host

end MoltMesh

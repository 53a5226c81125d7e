import MoltMesh.Tendermint.View

/-!
# Agreement of the Tendermint replicas

What a replica counts is backed by what the others have broadcast
(`Group.Evidence`), so a quorum in its store is a quorum of the locking protocol,
and the agreement of that protocol is agreement on block hashes
(`Group.Inv.agreement`).

The protocol assumes two things the code does not check, and the absence of an
overflow; together they are the condition `Group.Safe` on a step.
-/

namespace MoltMesh

open MoltMesh.Lib Pb

/-- The votes of one height, round and type have distinct voters. -/
theorem Store.nodup_voters_getVotes (s : Store) (t : String) (h : Int) (r : Int32) (ty : VoteType) :
    ((s.getVotes t h r ty).map Vote.voterDid).Nodup := by
  have hkeys := s.votes.nodup_map_select fun v =>
    v.threadId = t ∧ v.height = h ∧ v.round = r ∧ v.type = ty
  have hmap : (s.getVotes t h r ty).map voteKey =
      ((s.getVotes t h r ty).map Vote.voterDid).map fun d => (t, h, r, ty, d) := by
    rw [List.map_map]
    refine List.map_congr_left fun v hv => ?_
    obtain ⟨-, hv⟩ := Table.mem_select.mp hv
    obtain ⟨rfl, rfl, rfl, rfl⟩ := of_decide_eq_true hv
    rfl
  exact List.Nodup.of_map _ (hmap ▸ hkeys)

end MoltMesh

namespace MoltMesh.Tendermint

open MoltMesh.Lib LockVoting Pb

variable {env : Env} {H p : String} {known : Payload → Prop} {e' : Backend} {r : Int32}

/-! ## Counting -/

theorem foldl_best_mem (l : List (String × Nat)) (b : String × Nat) :
    l.foldl (fun best c => if best.2 < c.2 then c else best) b = b ∨
      l.foldl (fun best c => if best.2 < c.2 then c else best) b ∈ l := by
  induction l generalizing b with
  | nil => exact .inl rfl
  | cons c l ih =>
    rw [List.foldl_cons]
    rcases ih (if b.2 < c.2 then c else b) with h | h
    · rw [h]
      split
      · exact .inr List.mem_cons_self
      · exact .inl rfl
    · exact .inr (List.mem_cons_of_mem _ h)

/-- `majority` finds nothing, or reports the number of votes for a hash. -/
theorem majority_cases {votes : List Vote} {c : Nat} (h : majority env votes = (H, c)) :
    (H = "" ∧ c = 0) ∨ votes.countP (fun v => v.blockHash = H) = c := by
  rcases foldl_best_mem (env.iterate (counts votes)) ("", 0) with h' | h'
  · rw [majority, h'] at h
    obtain ⟨rfl, rfl⟩ := Prod.mk.inj h
    exact .inl ⟨rfl, rfl⟩
  · rw [majority] at h
    rw [h] at h'
    obtain ⟨H', -, heq⟩ := List.mem_map.mp ((env.iterate_perm _).mem_iff.mp h')
    obtain ⟨rfl, hcount⟩ := Prod.mk.inj heq
    exact .inr hcount

/-- The count `majority` reports for a hash is the number of votes for it. -/
theorem count_of_majority {votes : List Vote} {c : Nat}
    (h : majority env votes = (H, c)) (hc : 0 < c) :
    votes.countP (fun v => v.blockHash = H) = c :=
  (majority_cases h).resolve_left fun h => hc.ne' h.2

theorem le_foldl_best (l : List (String × Nat)) (b : String × Nat) : ∀ c ∈ b :: l,
    c.2 ≤ (l.foldl (fun best c => if best.2 < c.2 then c else best) b).2 := by
  induction l generalizing b with
  | nil => simp
  | cons x l ih =>
    have hfirst := ih _ _ (List.mem_cons_self (a := if b.2 < x.2 then x else b))
    simp only [List.mem_cons, forall_eq_or_imp] at ih ⊢
    refine ⟨?_, ?_, (ih _).2⟩
    all_goals
      refine le_trans ?_ hfirst
      split <;> omega

/-- `majority` reports at least the number of votes for any hash. -/
theorem countP_le_majority (env : Env) (votes : List Vote) (H : String) :
    votes.countP (fun v => v.blockHash = H) ≤ (majority env votes).2 := by
  by_cases hH : H ∈ votes.map Vote.blockHash
  · refine le_foldl_best _ _ (H, _) (List.mem_cons_of_mem _ ((env.iterate_perm _).mem_iff.mpr ?_))
    exact List.mem_map.mpr ⟨H, List.mem_dedup.mpr hH, rfl⟩
  · refine (List.countP_eq_zero.mpr fun v hv => ?_).trans_le (Nat.zero_le _)
    exact fun h => hH (List.mem_map.mpr ⟨v, hv, of_decide_eq_true h⟩)

/-- **The winner of a quorum is unique**: whatever the order in which the counts are visited, `majority` reports the
same hash, with the number of its votes. -/
theorem majority_unique {f : Nat} {env : Env} {votes : List Vote} (hlen : votes.length ≤ 3 * f + 1)
    (hquorum : 2 * f + 1 ≤ (majority env votes).2) (env' : Env) : majority env' votes = majority env votes ∧
      votes.countP (fun v => v.blockHash = (majority env votes).1) = (majority env votes).2 := by
  obtain ⟨⟨H, c⟩, hmaj⟩ : ∃ best, majority env votes = best := ⟨_, rfl⟩
  obtain ⟨⟨H', c'⟩, hmaj'⟩ : ∃ best, majority env' votes = best := ⟨_, rfl⟩
  have hle := countP_le_majority env' votes H
  rw [hmaj] at hquorum ⊢
  rw [hmaj'] at hle ⊢
  have hcount := count_of_majority hmaj (Nat.lt_of_lt_of_le (Nat.succ_pos _) hquorum)
  have hcount' := count_of_majority hmaj' (by omega)
  obtain rfl : H' = H := by
    by_contra hne
    -- Two hashes with a quorum each would need more votes than there are.
    have hsplit := List.length_eq_countP_add_countP (fun v : Vote => v.blockHash = H) (l := votes)
    have hothers := List.countP_mono_left (l := votes) (p := fun v => v.blockHash = H')
      (q := fun v => ¬decide (v.blockHash = H)) fun v _ h => by
        simp only [decide_eq_true_eq] at h ⊢
        exact h ▸ hne
    omega
  exact ⟨Prod.ext rfl (hcount'.symm.trans hcount), hcount⟩

/-- An environment that visits maps in a given order. -/
def visiting (order : List (String × Nat) → List (String × Nat)) (h : ∀ l, (order l).Perm l) : Env :=
  ⟨1, Int.one_pos, order, h, fun _ => false, fun _ => false⟩

/-- Prevotes of four validators, one of them for nil. -/
def ballots : List Vote := [("d1", "H"), ("d2", "H"), ("d3", ""), ("d4", "H")].map fun v => ⟨"t", 1, 0, .prevote, v.2, v.1, ""⟩

theorem majority_unique_ballots :
    majority (visiting .reverse List.reverse_perm) ballots = majority (visiting id .refl) ballots ∧
      ballots.countP (fun v => v.blockHash = (majority (visiting id .refl) ballots).1) =
        (majority (visiting id .refl) ballots).2 :=
  majority_unique (f := 1) (by decide) (by decide) _

namespace Group

variable (G : Group) (S : Cluster)

/-- A vote is by a validator, and if that runs the code it has broadcast such a vote. -/
structure Backed (v : Vote) : Prop where
  member : v.voterDid ∈ G.thread.replicaDids
  sent : v.voterDid ∉ G.byzantine → ∃ w ∈ sentVotes (S v.voterDid).trace,
    w.height = v.height ∧ w.round = v.round ∧ w.type = v.type ∧ w.blockHash = v.blockHash

/-- The votes of this thread a replica holds, stored or buffered, are backed. -/
def Evidence (e : Backend) : Prop :=
  ∀ v, v ∈ e.store.votes.rows ∨ v ∈ e.futureVotes → v.threadId = G.thread.id → G.Backed S v

variable {G S}

/-- **A quorum a replica counts is a quorum of validators that voted.** -/
theorem Evidence.voted {e : Backend} (hE : G.Evidence S e) {did : String}
    {ty : VoteType} (hw : Winner (G.node did) env e ty H) :
    G.Voted S ty e.cs.height e.cs.round H := by
  obtain ⟨c, hmaj, hq⟩ := hw
  have hq' : G.committee.quorum ≤ c := by
    have h : ((G.committee.quorum : Nat) : Int) ≤ c := G.quorum_eq ▸ hq
    exact_mod_cast h
  have hpos : 0 < c := lt_of_lt_of_le (Nat.succ_pos _) hq'
  have hcount := count_of_majority hmaj hpos
  -- The query succeeded, since there is something to count.
  have hread : countedVotes (G.node did) env e e.cs.height e.cs.round ty =
      e.store.getVotes G.thread.id e.cs.height e.cs.round ty := by
    unfold countedVotes at hcount ⊢
    split
    · rename_i hf
      rw [if_pos hf] at hcount
      exact absurd hcount.symm hpos.ne'
    · rfl
  rw [hread] at hcount
  have hmem : ∀ v ∈ (e.store.getVotes G.thread.id e.cs.height e.cs.round ty).filter
      (fun v => v.blockHash = H), G.Backed S v ∧ v.height = e.cs.height ∧ v.round = e.cs.round ∧
        v.type = ty ∧ v.blockHash = H := by
    intro v hv
    obtain ⟨hv, hH⟩ := List.mem_filter.mp hv
    obtain ⟨hrow, hv⟩ := Table.mem_select.mp hv
    obtain ⟨ht, hh, hr, hty⟩ := of_decide_eq_true hv
    exact ⟨hE v (.inl hrow) ht, hh, hr, hty, of_decide_eq_true hH⟩
  refine ⟨(((e.store.getVotes G.thread.id e.cs.height e.cs.round ty).filter
    fun v => v.blockHash = H).map Vote.voterDid).toFinset, ?_, ?_, ?_⟩
  · intro did hdid
    obtain ⟨v, hv, rfl⟩ := List.mem_map.mp (List.mem_toFinset.mp hdid)
    exact List.mem_toFinset.mpr (hmem v hv).1.member
  · rw [List.toFinset_card_of_nodup, List.length_map, ← List.countP_eq_length_filter, hcount]
    · exact hq'
    · exact (List.filter_sublist.map _).nodup (e.store.nodup_voters_getVotes _ _ _ _)
  · intro did hdid hcorrect
    obtain ⟨v, hv, rfl⟩ := List.mem_map.mp (List.mem_toFinset.mp hdid)
    obtain ⟨hb, hh, hr, hty, hH⟩ := hmem v hv
    rw [← hh, ← hr, ← hty, ← hH]
    exact hb.sent hcorrect

/-! ## The condition on a step -/

variable (G S)

/-- What the locking protocol needs of a proposal that passes the checks of `handleProposal`: its
block is for the height of the proposal, and if it makes the replica give up its lock, the
proof-of-lock round it announces does have a polka for another block. -/
structure SafeProposal (cs : ConsensusState) (prop : Proposal) (block : ThreadBlock) : Prop where
  height : block.height = prop.height
  polka : lockedOnDifferent cs block.blockHash = true → polcSupersedes cs prop = true →
    ∃ H, H ≠ "" ∧ H ≠ cs.lockedHash ∧ G.Voted S .prevote cs.height prop.polRound H

/-- The condition on a step: accepted proposals are safe, and the round stays in range. -/
structure Safe (a : Action) : Prop where
  proposal : ∀ msg prop block, a.event = .inbound msg → msg.payload = .proposal prop →
    ProposalOk (G.node a.did) (S a.did) prop block → G.SafeProposal S (S a.did).cs prop block
  round : InRange (S a.did) a.env a.event

/-- What is delivered is not forged. -/
def Authentic (a : Action) : Prop := ∀ msg, a.event = .inbound msg → G.Unforged S msg.payload

/-- The condition on a step as a proviso of its acts, with whatever else is known of the messages
that are heard. -/
def proviso (known : Payload → Prop) (did : String) : Proviso where
  heard e p := G.Unforged S p ∧ known p ∧ ∀ prop block, p = .proposal prop →
    ProposalOk (G.node did) e prop block → G.SafeProposal S e.cs prop block
  advance cs := cs.round ≠ Int32.maxValue

variable {G S}

theorem after_acts {a : Action} (hauth : G.Authentic S a)
    (hsafe : G.Safe S a) (hknown : ∀ msg, a.event = .inbound msg → known msg.payload) :
    Acts (G.node a.did) a.env (G.proviso S known a.did) (S a.did) (G.after S a) := by
  refine step_acts a.event ?_ hsafe.round
  intro msg hmsg
  exact ⟨hauth msg hmsg, hknown msg hmsg, fun prop block hp hok =>
    hsafe.proposal msg prop block hmsg hp hok⟩

/-! ## The invariant -/

/-- What holds of a replica that runs the code, by itself. -/
structure Sane (N : Node) (e : Backend) : Prop where
  round : 0 ≤ e.cs.round.toInt
  proposal : ∀ b, e.proposal = some b → b.height = e.cs.height
  sent : ∀ v ∈ sentVotes e.trace, v.threadId = N.thread.id ∧ v.voterDid = N.id.did

theorem Sane.act {N : Node} {P : Proviso} {e : Backend} (hs : Sane N e)
    (hheight : ∀ prop block, ProposalOk N e prop block → P.heard e (.proposal prop) →
      block.height = prop.height)
    (hadv : P.advance e.cs → e.cs.round ≠ Int32.maxValue) (hact : Act N env P e e') :
    Sane N e' := by
  have hsent : ∀ v ∈ sentVotes e'.trace, v.threadId = N.thread.id ∧ v.voterDid = N.id.did := by
    intro v hv
    rcases hact.deed.voting with h | ⟨ty, H, -, h⟩
    · exact hs.sent v (h.sent ▸ hv)
    · rw [h.sent] at hv
      rcases List.mem_append.mp hv with hv | hv
      · exact hs.sent v hv
      · rw [List.mem_singleton.mp hv]
        exact ⟨rfl, rfl⟩
  cases hact.deed.moves with
  | stay hcs hp => exact ⟨hcs ▸ hs.round, hcs ▸ hp ▸ hs.proposal, hsent⟩
  | accept hok hh hcs hp =>
    refine ⟨hcs ▸ hs.round, ?_, hsent⟩
    rw [hcs, hp]
    rintro b ⟨⟩
    exact (hheight _ _ hok hh).trans hok.height
  | unlock hok hh hl hsup hcs hp =>
    refine ⟨hcs ▸ hs.round, ?_, hsent⟩
    rw [hcs, hp]
    rintro b ⟨⟩
    exact (hheight _ _ hok hh).trans hok.height
  | prevoteNil hstep hcs hp => exact ⟨hcs ▸ hs.round, hcs ▸ hp ▸ hs.proposal, hsent⟩
  | precommitNil hstep hcs hp => exact ⟨hcs ▸ hs.round, hcs ▸ hp ▸ hs.proposal, hsent⟩
  | lock hstep hw hn hcs hp => exact ⟨hcs ▸ hs.round, hcs ▸ hp ▸ hs.proposal, hsent⟩
  | nextRound hstep ha hcs hp =>
    refine ⟨?_, hcs ▸ hp ▸ hs.proposal, hsent⟩
    rw [hcs]
    change 0 ≤ (e.cs.round + 1).toInt
    rw [toInt_add_one (hadv ha)]
    exact Int.le_add_one hs.round
  | skip hr hcs hp =>
    refine ⟨?_, hcs ▸ hp ▸ hs.proposal, hsent⟩
    rw [hcs]
    exact hs.round.trans (Int32.lt_iff_toInt_lt.mp hr).le
  | stamp hok hcs hp =>
    refine ⟨hcs ▸ hs.round, ?_, hsent⟩
    rw [hcs, hp]
    rintro b ⟨⟩
    have hheight' := hs.proposal _ hok.proposal
    exact hheight'
  | commit hok hcs hp =>
    refine ⟨?_, ?_, hsent⟩
    · rw [hcs]
      exact le_rfl
    · rw [hp]
      rintro b ⟨⟩

variable (G S)

/-- The invariant of the runs whose steps are safe. -/
structure Inv : Prop where
  sane : ∀ did, G.Correct did → Sane (G.node did) (S did)
  evidence : ∀ did, G.Correct did → G.Evidence S (S did)
  locks : ∀ h, LockVoting.Inv G.committee fun did => view h (S did)
  decided : ∀ did, G.Correct did → ∀ h b, (h, b) ∈ commits (S did).trace →
    b.blockHash ≠ "" ∧ ∃ r, G.Voted S .precommit h r b.blockHash

variable {G S}

/-! ## One act keeps the invariant -/

section Act

variable {S' : Cluster} (hsent : ∀ did, sentVotes (S did).trace ⊆ sentVotes (S' did).trace)

include hsent

theorem Voted.mono {ty : VoteType} {h : Int} (hv : G.Voted S ty h r H) : G.Voted S' ty h r H :=
  Committee.Attests.mono hv fun did _ ⟨v, hv, hc⟩ => ⟨v, hsent did hv, hc⟩

theorem Backed.mono {v : Vote} (hb : G.Backed S v) : G.Backed S' v :=
  ⟨hb.member, fun hc => (hb.sent hc).imp fun _ hw => ⟨hsent _ hw.1, hw.2⟩⟩

/-- A vote that passes the checks of `handleVote` and is not forged is backed. -/
theorem Unforged.backed {N : Node} {e : Backend} {v : Vote} (hu : G.Unforged S (.vote v))
    (hsane : ∀ did, G.Correct did → Sane (G.node did) (S' did)) (hN : N.thread = G.thread)
    (hC : N.crypto = G.crypto) (hv : VoteOk N e v) (ht : v.threadId = G.thread.id) :
    G.Backed S' v := by
  have hmem : v.voterDid ∈ G.thread.replicaDids := by
    have := hv.known
    rw [hN] at this
    exact of_decide_eq_true this
  refine ⟨hmem, fun hc => ?_⟩
  have hdata := hu ⟨hmem, hc⟩ ht (hC ▸ hv.sig)
  rcases List.mem_append.mp hdata with hd | hd
  · obtain ⟨w, hw, heq⟩ := List.mem_map.mp hd
    have hw' := hsent _ hw
    -- Both votes are of this thread, so that the signed texts agree in the other fields.
    have htw : w.threadId = v.threadId := ((hsane _ ⟨hmem, hc⟩).sent w hw').1.trans ht.symm
    rw [voteData, voteData, htw] at heq
    exact ⟨w, hw', voteSigData_inj heq⟩
  · obtain ⟨p, -, hp⟩ := List.mem_filterMap.mp hd
    obtain ⟨b, -, heq⟩ := Option.map_eq_some_iff.mp hp
    exact absurd heq.symm voteSigData_ne_proposalSigData

end Act

/-- A quorum of votes for a block is one of the voters. -/
theorem Voted.polka {h : Int} (hv : G.Voted S .prevote h r H)
    (hH : H ≠ "") : Polka G.committee (fun did => view h (S did)) r.toInt H :=
  Committee.Attests.mono hv fun _ _ ⟨v, hv, hh, hr, hty, hH'⟩ =>
    ⟨hH, v, hv, hh, congrArg Int32.toInt hr, hty, hH'⟩

theorem Voted.decided {h : Int} (hv : G.Voted S .precommit h r H)
    (hH : H ≠ "") : Decided G.committee (fun did => view h (S did)) r.toInt H :=
  Committee.Attests.mono hv fun _ _ ⟨v, hv, hh, hr, hty, hH'⟩ =>
    ⟨hH, v, hv, hh, congrArg Int32.toInt hr, hty, hH'⟩

theorem view_update (h : Int) (p : String) (e' : Backend) :
    (fun did => view h (Function.update S p e' did)) =
      Function.update (fun did => view h (S did)) p (view h e') := by
  funext did
  exact Function.apply_update (fun _ e => view h e) S p e' did

theorem sentVotes_update {P : Proviso} (hact : Act (G.node p) env P (S p) e') (did : String) :
    sentVotes (S did).trace ⊆ sentVotes (Function.update S p e' did).trace := by
  by_cases hd : did = p
  · subst hd
    rw [Function.update_self]
    rcases hact.deed.voting with h | ⟨ty, H, -, h⟩
    · rw [h.sent]
      exact List.Subset.refl _
    · rw [h.sent]
      exact List.subset_append_left _ _
  · rw [Function.update_of_ne hd]
    exact List.Subset.refl _

/-- **One act keeps the invariant.**  The condition on what is heard is about an earlier state of
the group: that in which the call of the replica began. -/
theorem Inv.act {S₀ : Cluster} (hI : G.Inv S) (hp : G.Correct p)
    (hsent : ∀ did, sentVotes (S₀ did).trace ⊆ sentVotes (S did).trace)
    (hact : Act (G.node p) env (G.proviso S₀ known p) (S p) e') : G.Inv (Function.update S p e') := by
  have hmono := sentVotes_update hact
  have hsane : ∀ did, G.Correct did → Sane (G.node did) (Function.update S p e' did) := by
    intro did hd
    by_cases heq : did = p
    · subst heq
      rw [Function.update_self]
      refine (hI.sane did hd).act ?_ id hact
      intro prop block hok hheard
      exact (hheard.2.2 prop block rfl hok).height
    · rw [Function.update_of_ne heq]
      exact hI.sane did hd
  refine ⟨hsane, ?_, ?_, ?_⟩
  · intro did hd u hu ht
    by_cases heq : did = p
    · subst heq
      rw [Function.update_self] at hu
      rcases hact.deed.voting with h | ⟨ty, H, -, h⟩
      · rcases h.stored u hu with hold | ⟨hok, hheard⟩
        · exact (hI.evidence did hd u hold ht).mono hmono
        · exact Unforged.backed (fun w => List.Subset.trans (hsent w) (hmono w)) hheard.1 hsane rfl rfl hok ht
      · rw [h.futureVotes] at hu
        rcases hu with hu | hu
        · rcases h.stored u hu with hu | rfl
          · exact (hI.evidence did hd u (.inl hu) ht).mono hmono
          · refine ⟨hd.1, fun _ => ⟨_, ?_, rfl, rfl, rfl, rfl⟩⟩
            change _ ∈ sentVotes (Function.update S did e' did).trace
            rw [Function.update_self, h.sent]
            exact List.mem_append_right _ (List.mem_singleton_self _)
        · exact (hI.evidence did hd u (.inr hu) ht).mono hmono
    · rw [Function.update_of_ne heq] at hu
      exact (hI.evidence did hd u hu ht).mono hmono
  · intro h
    rw [view_update]
    have hs := hI.sane p hp
    let polkas (h : Int) := Polka G.committee fun did => view h (S did)
    have hsteps : Relation.ReflTransGen (Voter.Step (polkas h)) (view h (S p)) (view h e') := by
      refine hact.view_steps hs.round hs.proposal ?_ ?_ id h
      · intro H hH hw
        exact ((hI.evidence p hp).voted hw).polka hH
      · intro prop block hok hheard hl hsup
        obtain ⟨H, hH, hne, hv⟩ := (hheard.2.2 prop block rfl hok).polka hl hsup
        exact ⟨H, hne, (hv.mono hsent).polka hH⟩
    exact ((hI.locks h).steps hp.2 hsteps).1
  · intro did hd h b hb
    have hkeep : ∀ did', G.Correct did' → (h, b) ∈ commits (S did').trace →
        b.blockHash ≠ "" ∧ ∃ r, G.Voted (Function.update S p e') .precommit h r b.blockHash := by
      intro did' hd' hb'
      obtain ⟨hne, r, hv⟩ := hI.decided did' hd' h b hb'
      exact ⟨hne, r, hv.mono hmono⟩
    by_cases heq : did = p
    · subst heq
      rw [Function.update_self] at hb
      rcases hact.deed.commits_cases with hc | ⟨block, hok, hc⟩
      · exact hkeep did hd (hc ▸ hb)
      · rw [hc] at hb
        rcases List.mem_append.mp hb with hb | hb
        · exact hkeep did hd hb
        · obtain ⟨rfl, rfl⟩ := Prod.mk.inj (List.mem_singleton.mp hb)
          exact ⟨hok.notNil, _, ((hI.evidence did hd).voted hok.winner).mono hmono⟩
    · rw [Function.update_of_ne heq] at hb
      exact hkeep did hd hb

/-! ## Runs -/

theorem Inv.acts (hp : G.Correct p) (hI : G.Inv S)
    (hacts : Acts (G.node p) env (G.proviso S known p) (S p) e') : G.Inv (Function.update S p e') ∧
      ∀ did, sentVotes (S did).trace ⊆ sentVotes (Function.update S p e' did).trace := by
  induction hacts with
  | refl => simpa using hI
  | @tail e₁ e₂ _ hact ih =>
    obtain ⟨hI₁, hsent⟩ := ih
    have hact' : Act (G.node p) env (G.proviso S known p) (Function.update S p e₁ p) e₂ := by
      rwa [Function.update_self]
    have hI₂ := hI₁.act hp hsent hact'
    have hsent' := sentVotes_update hact'
    rw [Function.update_idem] at hI₂ hsent'
    exact ⟨hI₂, fun did => List.Subset.trans (hsent did) (hsent' did)⟩

theorem Initial.eq (h : G.Initial S) (did : String) : ∃ s : Store, s.Fresh G.thread.id ∧
    S did = { cs := .start 1, proposal := none, proposeAt := none, prevoteAt := none,
              precommitAt := none, started := false, futureVotes := [], store := s, trace := [] } := by
  obtain ⟨s, hs, heq⟩ := h did
  refine ⟨s, hs, heq.trans ?_⟩
  have hload : s.loadConsensusState G.thread.id = .start 1 := by
    rw [Store.loadConsensusState, hs.consensusState]
  rw [newTendermintBackend, show (G.node did).thread = G.thread from rfl, hload]

theorem Initial.inv (h : G.Initial S) : G.Inv S := by
  have hcast : ∀ h' did ty r B, ¬Cast h' (S did) ty r B := by
    rintro h' did ty r B ⟨v, hv, -⟩
    obtain ⟨s, -, heq⟩ := h.eq did
    rw [heq] at hv
    exact absurd hv List.not_mem_nil
  refine ⟨?_, ?_, fun h' => .initial (fun _ _ _ hp => hcast _ _ _ _ _ hp.2)
    (fun _ _ _ hp => hcast _ _ _ _ _ hp.2), ?_⟩
  · intro did _
    obtain ⟨s, -, heq⟩ := h.eq did
    rw [heq]
    refine ⟨le_rfl, ?_, ?_⟩
    · rintro b ⟨⟩
    · intro v hv
      exact absurd hv List.not_mem_nil
  · intro did _ v hv ht
    obtain ⟨s, hs, heq⟩ := h.eq did
    rw [heq] at hv
    rcases hv with hv | hv
    · exact absurd ht (hs.votes v hv)
    · exact absurd hv List.not_mem_nil
  · intro did _ h' b hb
    obtain ⟨s, -, heq⟩ := h.eq did
    rw [heq] at hb
    exact absurd hb List.not_mem_nil

/-- **The invariant holds along every run whose steps are safe.** -/
theorem Inv.run {S₀ : Cluster} (h₀ : G.Initial S₀)
    (hrun : G.Run (fun S a => G.Authentic S a ∧ G.Safe S a) S₀ S) : G.Inv S := by
  induction hrun with
  | refl => exact h₀.inv
  | tail _ hstep ih =>
    obtain ⟨a, hc, ⟨hauth, hsafe⟩, rfl⟩ := hstep
    have hacts := @after_acts (fun _ => True) _ _ a hauth hsafe fun _ _ => trivial
    exact (ih.acts hc hacts).1

/-- **Agreement.**  Blocks committed at one height have one hash. -/
theorem Inv.agreement (hI : G.Inv S) {did did' : String} (hd : G.Correct did)
    (hd' : G.Correct did') {h : Int} {b b' : ThreadBlock} (hb : (h, b) ∈ commits (S did).trace)
    (hb' : (h, b') ∈ commits (S did').trace) : b.blockHash = b'.blockHash := by
  obtain ⟨hne, r, hv⟩ := hI.decided did hd h b hb
  obtain ⟨hne', r', hv'⟩ := hI.decided did' hd' h b' hb'
  exact (hI.locks h).agreement (hv.decided hne) (hv'.decided hne')

end Group

end MoltMesh.Tendermint

import MoltMesh.Lib.Log
import MoltMesh.Tendermint.Honest
import MoltMesh.Tendermint.Trail

/-!
# A replica that stops and is rebuilt

The process of a replica may stop at any point of a call, and
`newTendermintBackend` builds the replica again from what is in the database.
What a replica has promised by its broadcasts is kept across such stops
(`Vows`), if it does not stop in two windows that the code leaves open: between
the broadcast of a vote and the saving of the state after it, and while the saved
state is that of a round in which it has proposed.
-/

namespace MoltMesh.Pb

/-- The order of the votes within a round. -/
def VoteType.rank : VoteType → Nat
  | .prevote => 1
  | .precommit => 2
  | _ => 3

end MoltMesh.Pb

namespace MoltMesh.Tendermint

open MoltMesh.Lib Pb

variable {v : Vote} {i : String} {w : Write}

/-! ## What a history promises -/

/-- A consensus state in which a vote has been cast already. -/
def Passed (cs : ConsensusState) (v : Vote) : Prop :=
  v.height < cs.height ∨ (v.height = cs.height ∧ (v.round.toInt < cs.round.toInt ∨
    (v.round.toInt = cs.round.toInt ∧ v.type.rank ≤ cs.step.rank)))

theorem Passed.mono {cs cs' : ConsensusState} (hle : cs.Le cs') (hv : Passed cs v) :
    Passed cs' v := by
  unfold Passed ConsensusState.Le at *
  omega

/-- A precommit for a block at the current height is covered by the lock, unless a lock has been
given up since. -/
def Kept (cs : ConsensusState) (t : List Effect) : Prop :=
  ∀ i v t', .broadcast ⟨i, .vote v⟩ :: t' <:+ t → v.type = .precommit → v.blockHash ≠ "" →
    v.height = cs.height → v.round ≤ cs.lockedRound ∨ ∃ r, .unlock v.height r ∈ t'

/-- What a replica in a consensus state has kept to in its history. -/
structure Vows (cs : ConsensusState) (t : List Effect) : Prop where
  passed : ∀ v ∈ sentVotes t, Passed cs v
  votedOnce : ∀ v ∈ sentVotes t, ∀ v' ∈ sentVotes t, v.height = v'.height → v.round = v'.round →
    v.type = v'.type → v = v'
  reached : ∀ p ∈ sentProposals t, Reached cs p.height p.round
  proposedOnce : ∀ p ∈ sentProposals t, ∀ p' ∈ sentProposals t, p.height = p'.height →
    p.round = p'.round → p = p'
  kept : Kept cs t
  lockedRound_le : cs.lockedRound ≤ cs.round
  round_nonneg : 0 ≤ cs.round

variable {cs cs' : ConsensusState} {t : List Effect}

theorem Kept.concat (hk : Kept cs t) {a : Effect}
    (ha : ∀ i v, a = .broadcast ⟨i, .vote v⟩ → v.type = .precommit → v.blockHash ≠ "" →
      v.height = cs.height → v.round ≤ cs.lockedRound) : Kept cs (t ++ [a]) := by
  intro i v s hs hty hne hh
  rcases suffix_concat hs with ⟨heq, rfl⟩ | ⟨s', rfl, hs'⟩
  · exact .inl (ha i v heq.symm hty hne hh)
  · rcases hk i v s' hs' hty hne hh with h | ⟨r, hr⟩
    · exact .inl h
    · exact .inr ⟨r, List.mem_append_left _ hr⟩

/-- Giving up a lock frees the replica from the precommits at its height. -/
theorem kept_unlock (hh : cs'.height = cs.height) (r : Int32) (t : List Effect) :
    Kept cs' (t ++ [.unlock cs.height r]) := by
  intro i v s hs hty hne hv
  rcases suffix_concat hs with ⟨heq, -⟩ | ⟨s', rfl, -⟩
  · cases heq
  · refine .inr ⟨r, List.mem_append_right _ ?_⟩
    rw [hv, hh]
    exact List.mem_singleton_self _

theorem mem_sentVotes_of_suffix {s : List Effect}
    (h : .broadcast ⟨i, .vote v⟩ :: s <:+ t) : v ∈ sentVotes t :=
  List.mem_filterMap.mpr ⟨_, h.subset List.mem_cons_self, rfl⟩

/-- A later state covers the precommits if it keeps the lock or is at a later height. -/
theorem Vows.kept_mono (hv : Vows cs t) (hle : cs.Le cs')
    (hlock : cs'.height = cs.height → cs.lockedRound ≤ cs'.lockedRound) : Kept cs' t := by
  intro i v s hs hty hne hh
  have hpassed := hv.passed v (mem_sentVotes_of_suffix hs)
  have hheight : cs'.height = cs.height := by
    unfold Passed at hpassed
    unfold ConsensusState.Le at hle
    omega
  rcases hv.kept i v s hs hty hne (hh.trans hheight) with h | h
  · exact .inl (Int32.le_trans h (hlock hheight))
  · exact .inr h

/-! ## One effect -/

/-- An effect that neither promises nor saves anything. -/
def Neutral : Effect → Prop
  | .write w => ∀ cs, w ≠ .saveConsensusState cs
  | .broadcast _ => False
  | .commit _ _ | .unlock _ _ => True

theorem sentVotes_neutrals {δ : List Effect} (hδ : ∀ a ∈ δ, Neutral a) : sentVotes δ = [] := by
  refine List.filterMap_eq_nil_iff.mpr fun a ha => ?_
  cases a with
  | write _ | commit _ _ | unlock _ _ => rfl
  | broadcast _ => exact absurd (hδ _ ha) id

theorem sentProposals_neutrals {δ : List Effect} (hδ : ∀ a ∈ δ, Neutral a) :
    sentProposals δ = [] := by
  refine List.filterMap_eq_nil_iff.mpr fun a ha => ?_
  cases a with
  | write _ | commit _ _ | unlock _ _ => rfl
  | broadcast _ => exact absurd (hδ _ ha) id

theorem Kept.neutrals (hk : Kept cs t) {δ : List Effect} (hδ : ∀ a ∈ δ, Neutral a) :
    Kept cs (t ++ δ) := by
  induction δ generalizing t with
  | nil => rwa [List.append_nil]
  | cons a δ ih =>
    rw [← List.singleton_append, ← List.append_assoc]
    refine ih (hk.concat ?_) fun b hb => hδ b (List.mem_cons_of_mem _ hb)
    rintro i v rfl
    exact absurd (hδ _ List.mem_cons_self) id

theorem Vows.neutrals (hv : Vows cs t) {δ : List Effect} (hδ : ∀ a ∈ δ, Neutral a) :
    Vows cs (t ++ δ) := by
  have hvotes : sentVotes (t ++ δ) = sentVotes t := by
    rw [sentVotes_append, sentVotes_neutrals hδ, List.append_nil]
  have hprops : sentProposals (t ++ δ) = sentProposals t := by
    rw [sentProposals_append, sentProposals_neutrals hδ, List.append_nil]
  exact ⟨hvotes ▸ hv.passed, hvotes ▸ hv.votedOnce, hprops ▸ hv.reached, hprops ▸ hv.proposedOnce,
    hv.kept.neutrals hδ, hv.lockedRound_le, hv.round_nonneg⟩

/-- Saving a later state. -/
theorem Vows.save (hv : Vows cs t) (hle : cs.Le cs') (hkept : Kept cs' t)
    (hlock : cs'.lockedRound ≤ cs'.round) (hround : 0 ≤ cs'.round) :
    Vows cs' (t ++ [.write (.saveConsensusState cs')]) := by
  have hvotes : sentVotes (t ++ [.write (.saveConsensusState cs')]) = sentVotes t := by
    rw [sentVotes_append, sentVotes_write, List.append_nil]
  have hprops : sentProposals (t ++ [.write (.saveConsensusState cs')]) = sentProposals t := by
    rw [sentProposals_append, sentProposals_write, List.append_nil]
  refine ⟨?_, hvotes ▸ hv.votedOnce, ?_, hprops ▸ hv.proposedOnce, hkept.concat ?_, hlock,
    hround⟩
  · exact hvotes ▸ fun v hmem => (hv.passed v hmem).mono hle
  · exact hprops ▸ fun p hmem => (hv.reached p hmem).mono hle
  · rintro i v ⟨⟩

/-- Proposing at a height and round at which the replica has not proposed. -/
theorem Vows.propose (hv : Vows cs t) {p : Proposal} (hh : p.height = cs.height)
    (hr : p.round = cs.round)
    (hnew : ∀ q ∈ sentProposals t, q.height = cs.height → q.round ≠ cs.round) :
    Vows cs (t ++ [.broadcast ⟨i, .proposal p⟩]) := by
  have hvotes : sentVotes (t ++ [.broadcast ⟨i, .proposal p⟩]) = sentVotes t := by
    rw [sentVotes_append, sentVotes_proposal, List.append_nil]
  refine ⟨hvotes ▸ hv.passed, hvotes ▸ hv.votedOnce, ?_, ?_, hv.kept.concat ?_, hv.lockedRound_le,
    hv.round_nonneg⟩
  · intro q hq
    rw [sentProposals_append, sentProposals_proposal] at hq
    rcases List.mem_append.mp hq with hq | hq
    · exact hv.reached q hq
    · rw [List.mem_singleton.mp hq]
      exact .inr ⟨hh, (congrArg Int32.toInt hr).le⟩
  · intro q hq q' hq' hqh hqr
    rw [sentProposals_append, sentProposals_proposal] at hq hq'
    rcases List.mem_append.mp hq with hq | hq <;> rcases List.mem_append.mp hq' with hq' | hq'
    · exact hv.proposedOnce q hq q' hq' hqh hqr
    · rw [List.mem_singleton.mp hq', hh] at hqh
      rw [List.mem_singleton.mp hq', hr] at hqr
      exact absurd hqr (hnew q hq hqh)
    · rw [List.mem_singleton.mp hq, hh] at hqh
      rw [List.mem_singleton.mp hq, hr] at hqr
      exact absurd hqr.symm (hnew q' hq' hqh.symm)
    · rw [List.mem_singleton.mp hq, List.mem_singleton.mp hq']
  · rintro i v ⟨⟩

/-- Casting a vote and saving the state after it. -/
theorem Vows.vote (hv : Vows cs t) (hh : v.height = cs.height)
    (hr : v.round = cs.round) (hnew : cs.step.rank < v.type.rank)
    (hle : cs.Le cs') (hpassed : Passed cs' v) (hkept : Kept cs' t)
    (hcover : v.type = .precommit → v.blockHash ≠ "" → v.round ≤ cs'.lockedRound)
    (hlock : cs'.lockedRound ≤ cs'.round) (hround : 0 ≤ cs'.round) :
    Vows cs' (t ++ [.broadcast ⟨i, .vote v⟩, .write (.saveConsensusState cs')]) := by
  have hvotes : sentVotes (t ++ [.broadcast ⟨i, .vote v⟩, .write (.saveConsensusState cs')]) =
      sentVotes t ++ [v] := by
    rw [sentVotes_append]
    rfl
  have hprops : sentProposals (t ++ [.broadcast ⟨i, .vote v⟩, .write (.saveConsensusState cs')]) =
      sentProposals t := by
    rw [sentProposals_append]
    exact List.append_nil _
  have hother : ∀ u ∈ sentVotes t, u.height = v.height → u.round = v.round → u.type ≠ v.type := by
    intro u hu huh hur hut
    have hp := hv.passed u hu
    rw [Passed, huh, hur, hut, hh, hr] at hp
    omega
  refine ⟨?_, ?_, ?_, hprops ▸ hv.proposedOnce, ?_, hlock, hround⟩
  · intro u hu
    rw [hvotes] at hu
    rcases List.mem_append.mp hu with hu | hu
    · exact (hv.passed u hu).mono hle
    · rw [List.mem_singleton.mp hu]
      exact hpassed
  · intro u hu u' hu' hhu hru htu
    rw [hvotes] at hu hu'
    rcases List.mem_append.mp hu with hu | hu <;> rcases List.mem_append.mp hu' with hu' | hu'
    · exact hv.votedOnce u hu u' hu' hhu hru htu
    · rw [List.mem_singleton.mp hu'] at hhu hru htu
      exact absurd htu (hother u hu hhu hru)
    · rw [List.mem_singleton.mp hu] at hhu hru htu
      exact absurd htu.symm (hother u' hu' hhu.symm hru.symm)
    · rw [List.mem_singleton.mp hu, List.mem_singleton.mp hu']
  · exact hprops ▸ fun p hmem => (hv.reached p hmem).mono hle
  · rw [show [Effect.broadcast ⟨i, .vote v⟩, .write (.saveConsensusState cs')] =
      [.broadcast ⟨i, .vote v⟩] ++ [.write (.saveConsensusState cs')] from rfl, ← List.append_assoc]
    refine (hkept.concat ?_).concat ?_
    · rintro _ _ ⟨⟩ hty hne _
      exact hcover hty hne
    · rintro _ _ ⟨⟩

/-! ## Stopping within an act -/

/-- The consensus state that is saved after an effect. -/
def Effect.saved (cs : ConsensusState) : Effect → ConsensusState
  | .write (.saveConsensusState cs') => cs'
  | _ => cs

/-- The consensus state that is saved after a trace, from what was saved before. -/
def lastSaved (cs : ConsensusState) (δ : List Effect) : ConsensusState := δ.foldl Effect.saved cs

theorem lastSaved_neutrals {δ : List Effect} (hδ : ∀ a ∈ δ, Neutral a) : lastSaved cs δ = cs := by
  induction δ with
  | nil => rfl
  | cons a δ ih =>
    have ha := hδ a List.mem_cons_self
    have hsaved : a.saved cs = cs := by
      cases a with
      | write w =>
        cases w with
        | saveConsensusState cs' => exact absurd rfl (ha cs')
        | saveVote _ | saveBlock _ | deletePending _ | enqueueEntry _ _ => rfl
      | broadcast _ | commit _ _ | unlock _ _ => rfl
    change lastSaved (a.saved cs) δ = cs
    rw [hsaved]
    exact ih fun b hb => hδ b (List.mem_cons_of_mem _ hb)

theorem lastSaved_append (cs : ConsensusState) (δ δ' : List Effect) :
    lastSaved cs (δ ++ δ') = lastSaved (lastSaved cs δ) δ' := List.foldl_append

/-- What the database holds follows the trace. -/
theorem loadConsensusState_replay (threadID : String) (s : Store) (δ : List Effect) :
    (replay threadID s δ).loadConsensusState threadID =
      lastSaved (s.loadConsensusState threadID) δ := by
  induction δ generalizing s with
  | nil => rfl
  | cons a δ ih =>
    change (replay threadID (a.apply threadID s) δ).loadConsensusState threadID =
      lastSaved (a.saved (s.loadConsensusState threadID)) δ
    rw [ih]
    congr 1
    cases a with
    | write w =>
      cases w with
      | saveConsensusState cs =>
        have hkey := Table.lookup_insertOrReplace_self s.consensusState (threadID, cs)
        change (s.saveConsensusState threadID cs).consensusState.lookup threadID = _ at hkey
        change (s.saveConsensusState threadID cs).loadConsensusState threadID = cs
        rw [Store.loadConsensusState, hkey]
      | saveVote _ | saveBlock _ | deletePending _ | enqueueEntry _ _ => rfl
    | broadcast _ | commit _ _ | unlock _ _ => rfl

/-- The state has been saved after each vote that was broadcast. -/
def Settled (t : List Effect) : Prop :=
  ∀ i v s, .broadcast ⟨i, .vote v⟩ :: s <:+ t → ∃ cs, .write (.saveConsensusState cs) ∈ s

theorem not_settled_vote : ¬Settled (t ++ [.broadcast ⟨i, .vote v⟩]) := by
  intro h
  obtain ⟨cs, hcs⟩ := h i v [] (List.suffix_append t _)
  exact absurd hcs List.not_mem_nil

theorem neutral_of_plain (hw : Plain w) : Neutral (.write w) := by
  rintro cs rfl
  exact hw

theorem neutral_map_write {ws : List Write} (hws : ∀ w ∈ ws, Plain w) :
    ∀ a ∈ ws.map Effect.write, Neutral a := by
  intro a ha
  obtain ⟨w, hw, rfl⟩ := List.mem_map.mp ha
  exact neutral_of_plain (hws w hw)

theorem neutral_ran {env : Env} (hw : Plain w) : ∀ a ∈ ran env w, Neutral a := by
  intro a ha
  unfold ran at ha
  split at ha
  · exact absurd ha List.not_mem_nil
  · rw [List.mem_singleton.mp ha]
    exact neutral_of_plain hw

theorem ran_of_not_fails {env : Env} (h : env.fails w = false) : ran env w = [.write w] := by
  rw [ran, h]
  rfl

variable {N : Node} {env : Env} {P : Proviso} {e e' : Backend} {δ α : List Effect}

/-- Stopping where nothing has been promised or saved. -/
theorem Vows.stop_neutral (hv : Vows cs t) (hδ : ∀ a ∈ δ, Neutral a) (hα : α <+: δ) :
    Vows (lastSaved cs α) (t ++ α) := by
  have hneutral : ∀ a ∈ α, Neutral a := fun a ha => hδ a (hα.subset ha)
  rw [lastSaved_neutrals hneutral]
  exact hv.neutrals hneutral

/-- Stopping while proposing. -/
theorem Vows.stop_propose (hv : Vows e.cs t) (hp : ProposeTrail N e δ)
    (hnew : ∀ q ∈ sentProposals t, q.height = e.cs.height → q.round ≠ e.cs.round) (hα : α <+: δ) :
    Vows (lastSaved e.cs α) (t ++ α) := by
  cases hp with
  | none hplain => exact hv.stop_neutral (neutral_map_write hplain) hα
  | @proposal ws block hplain _ _ =>
    rcases List.prefix_concat_iff.mp hα with rfl | hα
    · have hneutral := neutral_map_write hplain
      have hprops : sentProposals (t ++ ws.map .write) = sentProposals t := by
        rw [sentProposals_append, sentProposals_neutrals hneutral, List.append_nil]
      rw [lastSaved_append, lastSaved_neutrals hneutral, ← List.append_assoc]
      exact (hv.neutrals hneutral).propose rfl rfl (hprops ▸ hnew)
    · exact hv.stop_neutral (neutral_map_write hplain) hα

/-- Stopping while casting a vote. -/
theorem Vows.stop_vote (hv : Vows e.cs t) {ty : VoteType} {H : String}
    (hsaves : ∀ cs, env.fails (.saveConsensusState cs) = false) (hnew : e.cs.step.rank < ty.rank)
    (hh : cs'.height = e.cs.height) (hr : cs'.round = e.cs.round) (hstep : ty.rank ≤ cs'.step.rank)
    (hkept : Kept cs' t) (hcover : ty = .precommit → H ≠ "" → e.cs.round ≤ cs'.lockedRound)
    (hlock : cs'.lockedRound ≤ cs'.round) (hα : α <+: voteTrail N env e ty H cs')
    (hsettled : Settled α) : Vows (lastSaved e.cs α) (t ++ α) := by
  have hneutral : ∀ a ∈ ran env (.saveVote (newVote N e ty H)), Neutral a := neutral_ran trivial
  rw [voteTrail, ran_of_not_fails (hsaves cs')] at hα
  rcases List.prefix_concat_iff.mp hα with rfl | hα
  · rw [List.append_assoc, lastSaved_append, lastSaved_neutrals hneutral, ← List.append_assoc]
    have hround : cs'.round.toInt = e.cs.round.toInt := congrArg Int32.toInt hr
    refine (hv.neutrals hneutral).vote rfl rfl hnew ?_ ?_ ?_ hcover hlock ?_
    · exact .inr ⟨hh.symm, .inr ⟨hround.symm, hnew.le.trans hstep⟩⟩
    · exact .inr ⟨hh.symm, .inr ⟨hround.symm, hstep⟩⟩
    · exact hkept.neutrals hneutral
    · exact hr ▸ hv.round_nonneg
  · rcases List.prefix_concat_iff.mp hα with rfl | hα
    · exact absurd hsettled not_settled_vote
    · exact hv.stop_neutral hneutral hα

theorem neutral_commit {h : Int} {b : ThreadBlock} :
    ∀ a ∈ [Effect.commit h b, .write (.saveBlock b)], Neutral a := by
  intro a ha
  rcases List.mem_cons.mp ha with rfl | ha
  · exact trivial
  · rw [List.mem_singleton.mp ha]
    exact fun _ => Write.noConfusion

/-- Stopping after a state has been saved. -/
theorem Vows.stop_save (hv : Vows cs t) (hle : cs.Le e.cs) (hkept : Kept e.cs t)
    (hlock : e.cs.lockedRound ≤ e.cs.round) (hround : 0 ≤ e.cs.round) (hp : ProposeTrail N e δ)
    (hnew : ∀ q ∈ sentProposals t, q.height = e.cs.height → q.round ≠ e.cs.round)
    (hα : α <+: .write (.saveConsensusState e.cs) :: δ) : Vows (lastSaved cs α) (t ++ α) := by
  rcases List.prefix_cons_iff.mp hα with rfl | ⟨α', rfl, hα'⟩
  · rwa [List.append_nil]
  · have hv' := hv.save hle hkept hlock hround
    have hprops : sentProposals (t ++ [.write (.saveConsensusState e.cs)]) = sentProposals t := by
      rw [sentProposals_append, sentProposals_write, List.append_nil]
    rw [← List.singleton_append, ← List.append_assoc]
    exact hv'.stop_propose hp (hprops ▸ hnew) hα'

/-- Stopping while a later round is entered. -/
theorem Vows.stop_round (hv : Vows e.cs t) {r : Int32} (hlt : e.cs.round.toInt < r.toInt)
    (hcs : e'.cs = { e.cs with round := r, step := .propose }) (hp : ProposeTrail N e' δ)
    (hα : α <+: .write (.saveConsensusState e'.cs) :: δ) : Vows (lastSaved e.cs α) (t ++ α) := by
  have hle : e.cs.Le e'.cs := hcs ▸ .of_round hlt
  have hkept : Kept e'.cs t := hv.kept_mono hle fun _ => by rw [hcs]; exact Int32.le_refl _
  have hround : e.cs.round ≤ r := Int32.le_of_lt (Int32.lt_iff_toInt_lt.mpr hlt)
  refine hv.stop_save hle hkept ?_ ?_ hp ?_ hα
  · rw [hcs]
    exact Int32.le_trans hv.lockedRound_le hround
  · rw [hcs]
    exact Int32.le_trans hv.round_nonneg hround
  · intro q hq hqh hqr
    have hreached : Reached e.cs e'.cs.height e'.cs.round := hqh ▸ hqr ▸ hv.reached q hq
    rw [hcs] at hreached
    rcases hreached with h | ⟨-, h⟩
    · exact lt_irrefl _ h
    · exact absurd hlt h.not_gt

/-- Stopping while a block is committed and the next height entered. -/
theorem Vows.stop_commit (hv : Vows e.cs t) {block : ThreadBlock} {h : Int} (hheight : h = e.cs.height + 1)
    (hcs : e'.cs = .start h) (hp : ProposeTrail N e' δ)
    (hα : α <+: [.commit e.cs.height block, .write (.saveBlock block)] ++
      .write (.saveConsensusState e'.cs) :: δ) : Vows (lastSaved e.cs α) (t ++ α) := by
  have hnext : e'.cs.height = e.cs.height + 1 := by
    rw [hcs, hheight]
    rfl
  have hle : e.cs.Le e'.cs := .inl (hnext ▸ Int.lt_succ _)
  -- Up to the saving of the new state, the old one is what is found after a stop.
  rcases prefix_append_cases hα with hα | ⟨α', rfl, hα'⟩
  · exact hv.stop_neutral neutral_commit hα
  · have hneutral := @neutral_commit e.cs.height block
    have hv' := hv.neutrals hneutral
    rw [lastSaved_append, lastSaved_neutrals hneutral, ← List.append_assoc]
    refine hv'.stop_save hle ?_ ?_ ?_ hp ?_ hα'
    · exact hv'.kept_mono hle fun heq => absurd (heq.symm.trans hnext) (Int.lt_succ _).ne
    · have hneg : (-1 : Int32) ≤ 0 := by decide
      rw [hcs]
      exact hneg
    · rw [hcs]
      exact Int32.le_refl _
    · intro q hq hqh hqr
      have hreached : Reached e.cs e'.cs.height e'.cs.round := hqh ▸ hqr ▸ hv'.reached q hq
      rw [Reached, hnext] at hreached
      omega

theorem Settled.of_cons {a : Effect} (h : Settled (a :: t)) : Settled t :=
  fun i v s hs => h i v s (hs.trans (List.suffix_cons a t))

/-- **Wherever an act is stopped, the promises are kept by the state that is saved then**, unless
a vote has been broadcast and the state not been saved since. -/
theorem Trail.stop (htrail : Trail N env P e e' δ)
    (hsaves : ∀ cs, env.fails (.saveConsensusState cs) = false) (hv : Vows e.cs t)
    (hprop : ∀ b, e.proposal = some b → b.height = e.cs.height)
    (hadv : P.advance e.cs → e.cs.round ≠ Int32.maxValue)
    (hfresh : e.started = false → ∀ q ∈ sentProposals t, q.height = e.cs.height →
      q.round ≠ e.cs.round) (hα : α <+: δ) (hsettled : Settled α) :
    Vows (lastSaved e.cs α) (t ++ α) := by
  cases htrail with
  | plain hplain _ => exact hv.stop_neutral (neutral_map_write hplain) hα
  | prevote _ hstep hcs =>
    have hle : e.cs.Le e'.cs := hcs ▸ .of_step (hstep ▸ Nat.zero_le _)
    have hkept : Kept e'.cs t := hv.kept_mono hle fun _ => by rw [hcs]; exact Int32.le_refl _
    refine hv.stop_vote hsaves ?_ ?_ ?_ ?_ hkept ?_ ?_ hα hsettled
    · rw [hstep]
      exact Nat.one_pos
    · rw [hcs]
    · rw [hcs]
    · rw [hcs]
      exact le_rfl
    · rintro ⟨⟩
    · rw [hcs]
      exact hv.lockedRound_le
  | @unlock H _ hstep hcs =>
    rcases List.prefix_cons_iff.mp hα with rfl | ⟨α', rfl, hα'⟩
    · rwa [List.append_nil]
    · have hneutral : ∀ a ∈ [Effect.unlock e.cs.height e.cs.round], Neutral a :=
        fun a ha => List.mem_singleton.mp ha ▸ trivial
      have hkept : Kept e'.cs (t ++ [.unlock e.cs.height e.cs.round]) :=
        kept_unlock (by rw [hcs]) _ t
      rw [← List.singleton_append, ← List.append_assoc, lastSaved_append,
        lastSaved_neutrals hneutral]
      refine (hv.neutrals hneutral).stop_vote hsaves ?_ ?_ ?_ ?_ hkept ?_ ?_ hα' hsettled.of_cons
      · rw [hstep]
        exact Nat.one_pos
      · rw [hcs]
      · rw [hcs]
      · rw [hcs]
        exact le_rfl
      · rintro ⟨⟩
      · have hneg : (-1 : Int32) ≤ 0 := by decide
        rw [hcs]
        exact Int32.le_trans hneg hv.round_nonneg
  | precommitNil hstep hcs =>
    have hle : e.cs.Le e'.cs := hcs ▸ .of_step (hstep ▸ Nat.le_succ 1)
    have hkept : Kept e'.cs t := hv.kept_mono hle fun _ => by rw [hcs]; exact Int32.le_refl _
    refine hv.stop_vote hsaves ?_ ?_ ?_ ?_ hkept (fun _ hne => absurd rfl hne) ?_ hα hsettled
    · rw [hstep]
      exact Nat.one_lt_two
    · rw [hcs]
    · rw [hcs]
    · rw [hcs]
      exact le_rfl
    · rw [hcs]
      exact hv.lockedRound_le
  | @precommit H hstep hne hcs =>
    have hle : e.cs.Le e'.cs := by
      rw [hcs]
      exact .inr ⟨rfl, .inr ⟨rfl, hstep ▸ Nat.le_succ 1⟩⟩
    have hkept : Kept e'.cs t := hv.kept_mono hle fun _ => by rw [hcs]; exact hv.lockedRound_le
    refine hv.stop_vote hsaves ?_ ?_ ?_ ?_ hkept (fun _ _ => ?_) ?_ hα hsettled
    · rw [hstep]
      exact Nat.one_lt_two
    · rw [hcs]
      rfl
    · rw [hcs]
      rfl
    · rw [hcs]
      exact le_rfl
    · rw [hcs]
      exact Int32.le_refl _
    · rw [hcs]
      exact Int32.le_refl _
  | start hun _ hcs hp =>
    rw [← hcs] at hv ⊢
    exact hv.stop_propose hp (hcs ▸ hfresh hun) hα
  | @round r _ _ hlater hcs hp =>
    have hlt : e.cs.round.toInt < r.toInt := by
      rcases hlater with hlt | ⟨rfl, ha⟩
      · exact Int32.lt_iff_toInt_lt.mp hlt
      · rw [toInt_add_one (hadv ha)]
        exact Int.lt_succ _
    rw [ran_of_not_fails (hsaves _)] at hα
    exact hv.stop_round hlt hcs hp hα
  | commitFails _ _ =>
    refine hv.stop_neutral ?_ hα
    intro a ha
    rw [List.mem_singleton.mp ha]
    exact trivial
  | commitPanics _ _ _ => exact hv.stop_neutral neutral_commit hα
  | @commit block _ _ hok hcs hp =>
    rw [ran_of_not_fails (hsaves _), List.append_assoc] at hα
    exact hv.stop_commit (congrArg (· + 1) (hprop _ hok.proposal)) hcs hp hα

/-! ## Whole acts -/

theorem settled_save (t : List Effect) (cs : ConsensusState) :
    Settled (t ++ [.write (.saveConsensusState cs)]) := by
  intro i v s hs
  rcases suffix_concat hs with ⟨heq, -⟩ | ⟨s', rfl, -⟩
  · cases heq
  · exact ⟨cs, List.mem_append_right _ (List.mem_singleton_self _)⟩

theorem settled_of_sentVotes (h : sentVotes t = []) : Settled t := by
  intro i v s hs
  have hmem := mem_sentVotes_of_suffix hs
  rw [h] at hmem
  exact absurd hmem List.not_mem_nil

theorem ProposeTrail.sentVotes (hp : ProposeTrail N e δ) : sentVotes δ = [] := by
  cases hp with
  | none hplain => exact sentVotes_neutrals (neutral_map_write hplain)
  | proposal hplain _ _ =>
    rw [sentVotes_append, sentVotes_neutrals (neutral_map_write hplain)]
    rfl

theorem ProposeTrail.lastSaved (hp : ProposeTrail N e δ) (cs : ConsensusState) :
    lastSaved cs δ = cs := by
  cases hp with
  | none hplain => exact lastSaved_neutrals (neutral_map_write hplain)
  | proposal hplain _ _ =>
    rw [lastSaved_append, lastSaved_neutrals (neutral_map_write hplain)]
    rfl

section Whole

variable (htrail : Trail N env P e e' δ)
  (hsaves : ∀ cs, env.fails (.saveConsensusState cs) = false)

include htrail hsaves

/-- A whole act saves the state it ends in. -/
theorem Trail.lastSaved_eq : lastSaved e.cs δ = e'.cs := by
  have hvote : ∀ ty H cs, lastSaved cs (voteTrail N env e ty H e'.cs) = e'.cs := by
    intro ty H cs
    rw [voteTrail, ran_of_not_fails (hsaves _), lastSaved_append]
    rfl
  cases htrail with
  | plain hplain hcs =>
    rw [lastSaved_neutrals (neutral_map_write hplain), hcs]
  | prevote _ _ _ | precommitNil _ _ | precommit _ _ _ => exact hvote _ _ _
  | unlock _ _ _ => exact hvote _ _ _
  | start _ _ hcs hp => rw [hp.lastSaved, hcs]
  | round _ _ _ hp =>
    rw [lastSaved_append, hp.lastSaved, ran_of_not_fails (hsaves _)]
    rfl
  | commitFails _ hcs => exact hcs.symm
  | commitPanics _ _ hcs => exact hcs.symm
  | commit _ _ _ hp =>
    rw [lastSaved_append, hp.lastSaved, ran_of_not_fails (hsaves _)]
    rfl

theorem Trail.settled : Settled δ := by
  have hvote : ∀ t ty H, Settled (t ++ voteTrail N env e ty H e'.cs) := by
    intro t ty H
    rw [voteTrail, ran_of_not_fails (hsaves _), ← List.append_assoc]
    exact settled_save _ _
  cases htrail with
  | plain hplain _ => exact settled_of_sentVotes (sentVotes_neutrals (neutral_map_write hplain))
  | prevote _ _ _ | precommitNil _ _ | precommit _ _ _ => exact hvote [] _ _
  | unlock _ _ _ => exact hvote [_] _ _
  | start _ _ _ hp => exact settled_of_sentVotes hp.sentVotes
  | round _ _ _ hp =>
    refine settled_of_sentVotes ?_
    rw [sentVotes_append, hp.sentVotes, ran_of_not_fails (hsaves _)]
    rfl
  | commitFails _ _ => exact settled_of_sentVotes rfl
  | commitPanics _ _ _ => exact settled_of_sentVotes rfl
  | commit _ _ _ hp =>
    refine settled_of_sentVotes ?_
    rw [sentVotes_append, hp.sentVotes, ran_of_not_fails (hsaves _)]
    rfl

end Whole

end MoltMesh.Tendermint

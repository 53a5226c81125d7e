import MoltMesh.Tendermint.Restart

/-!
# Locks and polkas

A replica locks on a block when it counts a quorum of prevotes for it among the votes it
has stored.  Stored votes are never changed or deleted, and they are in the database before
the lock is, so that the lock has its prevotes in every state, also in the one that is found
after a stop at any point (`locks_grounded`).
-/

namespace MoltMesh.Tendermint

open MoltMesh.Lib Pb

variable {N : Node} {env : Env} {P : Proviso} {e e' : Backend} {δ α : List Effect}
  {cs : ConsensusState}

/-- The voters whose prevote for a hash is stored. -/
def prevoters (N : Node) (s : Store) (height : Int) (round : Int32) (H : String) : Finset String :=
  (((s.getVotes N.thread.id height round .prevote).filter fun v => v.blockHash = H).map
    Vote.voterDid).toFinset

/-- What a consensus state says about locks is grounded in stored prevotes. -/
structure Grounded (N : Node) (s : Store) (cs : ConsensusState) : Prop where
  locked : 0 ≤ cs.lockedRound → cs.lockedHash ≠ "" ∧
    quorum N.thread ≤ (prevoters N s cs.height cs.lockedRound cs.lockedHash).card
  valid : 0 ≤ cs.validRound → cs.validHash ≠ "" ∧
    quorum N.thread ≤ (prevoters N s cs.height cs.validRound cs.validHash).card
  lockedRound_le : cs.lockedRound ≤ cs.validRound
  validRound_le : cs.validRound ≤ cs.round

theorem prevoters_subset {s s' : Store} (h : ∀ v ∈ s.votes.rows, v ∈ s'.votes.rows) (height : Int)
    (round : Int32) (H : String) : prevoters N s height round H ⊆ prevoters N s' height round H := by
  intro did hdid
  obtain ⟨v, hv, rfl⟩ := List.mem_map.mp (List.mem_toFinset.mp hdid)
  obtain ⟨hv, hH⟩ := List.mem_filter.mp hv
  obtain ⟨hrow, hkey⟩ := Table.mem_select.mp hv
  refine List.mem_toFinset.mpr (List.mem_map.mpr ⟨v, List.mem_filter.mpr ⟨?_, hH⟩, rfl⟩)
  exact Table.mem_select.mpr ⟨h v hrow, hkey⟩

/-- More votes do no harm. -/
theorem Grounded.mono {s s' : Store} (h : Grounded N s cs)
    (hs : ∀ v ∈ s.votes.rows, v ∈ s'.votes.rows) : Grounded N s' cs where
  locked := fun hr => ⟨(h.locked hr).1, (h.locked hr).2.trans
    (Int.ofNat_le.mpr (Finset.card_le_card (prevoters_subset hs _ _ _)))⟩
  valid := fun hr => ⟨(h.valid hr).1, (h.valid hr).2.trans
    (Int.ofNat_le.mpr (Finset.card_le_card (prevoters_subset hs _ _ _)))⟩
  lockedRound_le := h.lockedRound_le
  validRound_le := h.validRound_le

/-- A quorum for a block that a replica counts is one of voters whose prevote is stored. -/
theorem Winner.prevoters {H : String} (hw : Winner N env e .prevote H) (hn : H ≠ "") :
    quorum N.thread ≤ (prevoters N e.store e.cs.height e.cs.round H).card := by
  obtain ⟨c, hmaj, hq⟩ := hw
  have hcount := (majority_cases hmaj).resolve_left fun h => hn h.1
  refine hq.trans ?_
  rw [← hcount]
  unfold countedVotes
  split
  · exact Int.natCast_nonneg _
  · rw [Tendermint.prevoters, List.toFinset_card_of_nodup, List.length_map, List.countP_eq_length_filter]
    exact (List.filter_sublist.map _).nodup (e.store.nodup_voters_getVotes _ _ _ _)

/-- A consensus state with the same locks in a round that is not earlier. -/
theorem Grounded.of_locks {s : Store} {cs' : ConsensusState} (h : Grounded N s cs)
    (hheight : cs'.height = cs.height) (hlocked : cs'.lockedRound = cs.lockedRound)
    (hlockedHash : cs'.lockedHash = cs.lockedHash) (hvalid : cs'.validRound = cs.validRound)
    (hvalidHash : cs'.validHash = cs.validHash) (hround : cs.round ≤ cs'.round) : Grounded N s cs' where
  locked := by
    rw [hheight, hlocked, hlockedHash]
    exact h.locked
  valid := by
    rw [hheight, hvalid, hvalidHash]
    exact h.valid
  lockedRound_le := by
    rw [hlocked, hvalid]
    exact h.lockedRound_le
  validRound_le := by
    rw [hvalid]
    exact Int32.le_trans h.validRound_le hround

/-- The state in which a height starts has no locks. -/
theorem grounded_start (s : Store) (height : Int) : Grounded N s (.start height) where
  locked := fun h => absurd h (by decide : ¬(0 : Int32) ≤ -1)
  valid := fun h => absurd h (by decide : ¬(0 : Int32) ≤ -1)
  lockedRound_le := Int32.le_refl _
  validRound_le := (by decide : (-1 : Int32) ≤ 0)

/-- **What an act makes of the locks is grounded in what was stored before it.** -/
theorem Grounded.moves (h : Grounded N e.store e.cs) (hm : Moves N env P e e')
    (hadv : P.advance e.cs → e.cs.round ≠ Int32.maxValue) : Grounded N e.store e'.cs := by
  have hsame : ∀ st, Grounded N e.store { e.cs with step := st } := fun st =>
    h.of_locks rfl rfl rfl rfl rfl (Int32.le_refl _)
  cases hm with
  | stay cs _ => exact cs ▸ h
  | accept _ _ cs _ => exact cs ▸ hsame _
  | unlock _ _ locked _ cs _ =>
    rw [cs]
    have hnonneg : 0 ≤ e.cs.lockedRound := (of_decide_eq_true locked).1
    refine ⟨fun hneg => absurd hneg (by decide : ¬(0 : Int32) ≤ -1), h.valid, ?_, h.validRound_le⟩
    exact Int32.le_trans (by decide : (-1 : Int32) ≤ 0) (Int32.le_trans hnonneg h.lockedRound_le)
  | prevoteNil _ cs _ => exact cs ▸ hsame _
  | precommitNil _ cs _ => exact cs ▸ hsame _
  | lock _ winner notNil cs _ =>
    rw [cs]
    have hpolka := winner.prevoters notNil
    exact ⟨fun _ => ⟨notNil, hpolka⟩, fun _ => ⟨notNil, hpolka⟩, Int32.le_refl _, Int32.le_refl _⟩
  | nextRound _ advance cs _ =>
    rw [cs]
    refine h.of_locks rfl rfl rfl rfl rfl (Int32.le_iff_toInt_le.mpr ?_)
    change e.cs.round.toInt ≤ (e.cs.round + 1).toInt
    rw [toInt_add_one (hadv advance)]
    exact (Int.lt_succ _).le
  | skip later cs _ =>
    rw [cs]
    exact h.of_locks rfl rfl rfl rfl rfl (Int32.le_of_lt later)
  | stamp _ cs _ => exact cs ▸ h
  | commit _ cs _ => exact cs ▸ grounded_start _ _

/-! ## Stopping anywhere -/

/-- What is saved after a trace was saved before it or is saved in it. -/
theorem lastSaved_cases (cs : ConsensusState) (δ : List Effect) :
    lastSaved cs δ = cs ∨ .write (.saveConsensusState (lastSaved cs δ)) ∈ δ := by
  induction δ generalizing cs with
  | nil => exact .inl rfl
  | cons a δ ih =>
    change lastSaved (a.saved cs) δ = cs ∨
      Effect.write (.saveConsensusState (lastSaved (a.saved cs) δ)) ∈ a :: δ
    rcases ih (a.saved cs) with hsame | hmem
    · rw [hsame]
      unfold Effect.saved
      split
      · exact .inr List.mem_cons_self
      · exact .inl rfl
    · exact .inr (List.mem_cons_of_mem _ hmem)

theorem ProposeTrail.not_saves (hp : ProposeTrail N e δ) (cs : ConsensusState) :
    .write (.saveConsensusState cs) ∉ δ := by
  intro hmem
  cases hp with
  | none hplain => exact neutral_map_write hplain _ hmem cs rfl
  | proposal hplain _ _ =>
    rcases List.mem_append.mp hmem with hmem | hmem
    · exact neutral_map_write hplain _ hmem cs rfl
    · cases List.mem_singleton.mp hmem

theorem mem_ran {w w' : Write} (h : .write w ∈ ran env w') : w = w' := by
  unfold ran at h
  split at h
  · exact absurd h List.not_mem_nil
  · exact Effect.write.inj (List.mem_singleton.mp h)

/-- An act saves no other consensus state than the one it ends in. -/
theorem Trail.saves_only (htrail : Trail N env P e e' δ)
    (hmem : .write (.saveConsensusState cs) ∈ δ) : cs = e'.cs := by
  have hvote : ∀ {ty H}, .write (.saveConsensusState cs) ∈ voteTrail N env e ty H e'.cs → cs = e'.cs := by
    intro ty H h
    rcases List.mem_append.mp h with h | h
    · rcases List.mem_append.mp h with h | h
      · cases mem_ran h
      · cases List.mem_singleton.mp h
    · exact Write.saveConsensusState.inj (mem_ran h)
  cases htrail with
  | plain hplain _ => exact absurd rfl (neutral_map_write hplain _ hmem cs)
  | prevote _ _ _ | precommitNil _ _ | precommit _ _ _ => exact hvote hmem
  | unlock _ _ _ =>
    rcases List.mem_cons.mp hmem with h | h
    · cases h
    · exact hvote h
  | start _ _ _ hp => exact absurd hmem (hp.not_saves cs)
  | round _ _ _ hp =>
    rcases List.mem_append.mp hmem with h | h
    · exact Write.saveConsensusState.inj (mem_ran h)
    · exact absurd h (hp.not_saves cs)
  | commitFails _ _ => cases List.mem_singleton.mp hmem
  | commitPanics _ _ _ => rcases List.mem_pair.mp hmem with h | h <;> cases h
  | commit _ _ _ hp =>
    rcases List.mem_append.mp hmem with h | h
    · rcases List.mem_append.mp h with h | h
      · rcases List.mem_pair.mp h with h | h <;> cases h
      · exact Write.saveConsensusState.inj (mem_ran h)
    · exact absurd h (hp.not_saves cs)

/-- Rounds stay in range, and the consensus state can be saved. -/
structure Steady (e : Backend) (env : Env) (ev : Event) : Prop where
  round : InRange e env ev
  saves : ∀ cs, env.fails (.saveConsensusState cs) = false

/-- The proviso of such calls. -/
def steadyProviso : Proviso where
  heard _ _ := True
  advance cs := cs.round ≠ Int32.maxValue

/-- What holds of a replica: its locks are grounded, and its state is the saved one. -/
structure Sure (N : Node) (e : Backend) : Prop where
  grounded : Grounded N e.store e.cs
  saved : e.store.loadConsensusState N.thread.id = e.cs

section Stops

variable (hsaves : ∀ cs, env.fails (.saveConsensusState cs) = false)

include hsaves

theorem Sure.act (h : Sure N e) (hact : Act N env steadyProviso e e') : Sure N e' := by
  obtain ⟨δ, hlog, htrail⟩ := hact.trail
  constructor
  · rw [hlog.store]
    exact (h.grounded.moves hact.deed.moves id).mono fun v hv => mem_votes_replay δ hv
  · rw [hlog.store, loadConsensusState_replay, h.saved, htrail.lastSaved_eq hsaves]

theorem Sure.acts (h : Sure N e) (hacts : Acts N env steadyProviso e e') : Sure N e' := by
  induction hacts with
  | refl => exact h
  | tail _ hact ih => exact ih.act hsaves hact

omit hsaves in
/-- Wherever an act is stopped, the locks of the saved state are grounded. -/
theorem Sure.stop_act (h : Sure N e) (hact : Act N env steadyProviso e e')
    (hα : e.trace ++ α <+: e'.trace) : Grounded N (replay N.thread.id e.store α) (lastSaved e.cs α) := by
  obtain ⟨δ, hlog, htrail⟩ := hact.trail
  rw [hlog.trace, List.prefix_append_right_inj] at hα
  refine Grounded.mono ?_ fun v hv => mem_votes_replay α hv
  rcases lastSaved_cases e.cs α with hsame | hmem
  · rw [hsame]
    exact h.grounded
  · rw [htrail.saves_only (hα.subset hmem)]
    exact h.grounded.moves hact.deed.moves id

/-- Wherever a call is stopped, the locks of the saved state are grounded. -/
theorem Sure.stop (h : Sure N e) (hacts : Acts N env steadyProviso e e')
    (hα : e.trace ++ α <+: e'.trace) : Grounded N (replay N.thread.id e.store α) (lastSaved e.cs α) := by
  induction hacts generalizing α with
  | refl =>
    have hlen := hα.length_le
    rw [List.length_append] at hlen
    obtain rfl : α = [] := List.length_eq_zero_iff.mp (by omega)
    exact h.grounded
  | @tail e₁ e₂ hacts hact ih =>
    obtain ⟨γ, hγ⟩ := Acts.logged hacts
    obtain ⟨δ, hδ, -⟩ := hact.trail
    have hsure := h.acts hsaves hacts
    rw [hδ.trace, hγ.trace, List.append_assoc, List.prefix_append_right_inj] at hα
    rcases prefix_append_cases hα with hα | ⟨α', rfl, hα'⟩
    · refine ih ?_
      rw [hγ.trace, List.prefix_append_right_inj]
      exact hα
    · have hcs : lastSaved e.cs γ = e₁.cs := by
        rw [← h.saved, ← loadConsensusState_replay, ← hγ.store]
        exact hsure.saved
      rw [lastSaved_append, hcs, replay_append, ← hγ.store]
      refine hsure.stop_act hact ?_
      rw [hδ.trace, List.prefix_append_right_inj]
      exact hα'

end Stops

theorem Steady.acts {ev : Event} (h : Steady e env ev) :
    Acts N env steadyProviso e (final (step N env e ev)) :=
  step_acts ev (fun _ _ => trivial) h.round

/-- What a stopped call leaves behind. -/
theorem Sure.stopped (h : Sure N e) {ev : Event} (hcall : Steady e env ev)
    (hδ : e.trace ++ δ <+: (final (step N env e ev)).trace) :
    Grounded N (replay N.thread.id e.store δ)
      ((replay N.thread.id e.store δ).loadConsensusState N.thread.id) := by
  rw [loadConsensusState_replay, h.saved]
  exact h.stop hcall.saves hcall.acts hδ

theorem Sure.lifeStep {l l' : Life} (h : Sure N l.e)
    (hstep : Life.Step N Steady (fun _ _ => True) l l') : Sure N l'.e := by
  cases hstep with
  | call hcall hok =>
    have hacts := @Steady.acts N _ _ _ hcall
    rw [hok] at hacts
    exact h.acts hcall.saves hacts
  | stop hcall _ hδ => exact ⟨h.stopped hcall hδ, rfl⟩

/-- **Locks are backed by polkas.**  In every life of a replica, with stops at any point, the locks in
memory have a quorum of stored prevotes, and so have those in the database whatever call is made next
and wherever it is stopped. -/
theorem locks_grounded {s : Store} (hs : s.consensusState.lookup N.thread.id = none) {l : Life}
    (hrun : Relation.ReflTransGen (Life.Step N Steady fun _ _ => True) (.first N s) l) :
    Grounded N l.e.store l.e.cs ∧ ∀ env ev δ, Steady l.e env ev →
      l.e.trace ++ δ <+: (final (step N env l.e ev)).trace →
      Grounded N (replay N.thread.id l.e.store δ)
        ((replay N.thread.id l.e.store δ).loadConsensusState N.thread.id) := by
  have hsure : Sure N l.e := by
    induction hrun with
    | refl =>
      have hcs : s.loadConsensusState N.thread.id = .start 1 := by rw [Store.loadConsensusState, hs]
      refine ⟨?_, rfl⟩
      change Grounded N s (s.loadConsensusState N.thread.id)
      rw [hcs]
      exact grounded_start s 1
    | tail _ hstep ih => exact ih.lifeStep hstep
  exact ⟨hsure.grounded, fun env ev δ hcall hδ => hsure.stopped hcall hδ⟩

open Quartet in
/-- A replica that stops after it has locked on a block. -/
theorem locks_grounded_quartet : ∃ l, Relation.ReflTransGen
      (Life.Step (allCorrect.node did1) Steady fun _ _ => True) (.first (allCorrect.node did1) .empty) l ∧
    l.e.cs.lockedRound = 0 ∧ l.e.cs.lockedHash = "aaaaaaaa" ∧
    quorum (allCorrect.node did1).thread ≤
      (prevoters (allCorrect.node did1) l.e.store l.e.cs.height 0 "aaaaaaaa").card := by
  have hexec : (Life.play (allCorrect.node did1) (prudent (allCorrect.node did1))
      (.first (allCorrect.node did1) .empty) lockAndStop).any (fun l =>
        l.e.cs.lockedRound = 0 ∧ l.e.cs.lockedHash = "aaaaaaaa") = true := by
    decide +kernel
  obtain ⟨l, hplay, hl⟩ := (Option.any_eq_true _ _).mp hexec
  obtain ⟨hround, hhash⟩ := of_decide_eq_true hl
  have hrun : Relation.ReflTransGen (Life.Step (allCorrect.node did1) Steady fun _ _ => True)
      (.first (allCorrect.node did1) .empty) l := by
    refine Life.play_run (fun l t h => ?_) (fun _ _ _ _ _ => trivial) hplay
    have hcareful := careful_of_prudent h
    exact ⟨hcareful.round, hcareful.saves⟩
  have hlocked := (locks_grounded rfl hrun).1.locked (by rw [hround]; decide)
  rw [hround, hhash] at hlocked
  exact ⟨l, hrun, hround, hhash, hlocked.2⟩

end MoltMesh.Tendermint

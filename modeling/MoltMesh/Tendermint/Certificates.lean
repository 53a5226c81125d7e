import MoltMesh.Tendermint.Locks

/-!
# Commits and their precommits

A replica commits a block when it counts a quorum of precommits for it.  The votes it counts are stored and
stay stored: whoever reads its database finds a quorum for every block the replica has ever committed,
whatever it was sent and wherever it was stopped (`commits_certified`).
-/

namespace MoltMesh.Tendermint

open MoltMesh.Lib Pb

variable {N : Node} {env : Env} {P : Proviso} {e e' : Backend} {t α : List Effect} {s : Store}

/-- The voters whose precommit for a hash is stored. -/
def precommitters (N : Node) (s : Store) (height : Int) (round : Int32) (H : String) : Finset String :=
  (((s.getVotes N.thread.id height round .precommit).filter fun v => v.blockHash = H).map Vote.voterDid).toFinset

/-- Every commit has a quorum of stored precommits. -/
def Certified (N : Node) (s : Store) (t : List Effect) : Prop :=
  ∀ c ∈ commits t, ∃ r, quorum N.thread ≤ (precommitters N s c.1 r c.2.blockHash).card

/-- More votes do no harm. -/
theorem Certified.replay (h : Certified N s t) (δ : List Effect) : Certified N (replay N.thread.id s δ) t := by
  intro c hc
  obtain ⟨r, hr⟩ := h c hc
  refine ⟨r, hr.trans (Int.ofNat_le.mpr (Finset.card_le_card fun did hdid => ?_))⟩
  obtain ⟨v, hv, rfl⟩ := List.mem_map.mp (List.mem_toFinset.mp hdid)
  obtain ⟨hv, hH⟩ := List.mem_filter.mp hv
  obtain ⟨hrow, hkey⟩ := Table.mem_select.mp hv
  refine List.mem_toFinset.mpr (List.mem_map.mpr ⟨v, List.mem_filter.mpr ⟨?_, hH⟩, rfl⟩)
  exact Table.mem_select.mpr ⟨mem_votes_replay δ hrow, hkey⟩

/-- A quorum that a replica counts is one of voters whose precommit is stored. -/
theorem CommitOk.precommitters {b : ThreadBlock} (h : CommitOk N env e b) :
    quorum N.thread ≤ (precommitters N e.store e.cs.height e.cs.round b.blockHash).card := by
  obtain ⟨c, hmaj, hq⟩ := h.winner
  refine hq.trans ?_
  rw [← (majority_cases hmaj).resolve_left fun hnil => h.notNil hnil.1]
  unfold countedVotes
  split
  · exact Int.natCast_nonneg _
  · rw [Tendermint.precommitters, List.toFinset_card_of_nodup, List.length_map, List.countP_eq_length_filter]
    exact (List.filter_sublist.map _).nodup (e.store.nodup_voters_getVotes _ _ _ _)

/-- Wherever a call is stopped, what has been committed until then has its quorums. -/
theorem Certified.stop (h : Certified N e.store t) (hacts : Acts N env P e e') (hα : e.trace ++ α <+: e'.trace) :
    Certified N (Tendermint.replay N.thread.id e.store α) (t ++ α) := by
  induction hacts generalizing α with
  | refl =>
    have hnil : α <+: [] := (List.prefix_append_right_inj e.trace).mp (by rwa [List.append_nil])
    rwa [List.prefix_nil.mp hnil, List.append_nil]
  | @tail e₁ e₂ hacts hact ih =>
    obtain ⟨γ, hγ⟩ := Acts.logged hacts
    obtain ⟨δ, hδ, -⟩ := hact.trail
    rw [hδ.trace, hγ.trace, List.append_assoc, List.prefix_append_right_inj] at hα
    rcases prefix_append_cases hα with hα | ⟨α', rfl, hα'⟩
    · exact ih (by rwa [hγ.trace, List.prefix_append_right_inj])
    · have hbefore := ih ⟨[], by rw [hγ.trace, List.append_nil]⟩
      rw [← hγ.store] at hbefore
      rw [replay_append, ← hγ.store, ← List.append_assoc]
      refine Certified.replay (fun c hc => ?_) α'
      rw [commits_append] at hc
      rcases List.mem_append.mp hc with hc | hc
      · exact hbefore c hc
      · have hmem : c ∈ commits δ := (hα'.sublist.filterMap _).subset hc
        have hnew := hact.deed.commits_cases
        rw [hδ.trace, commits_append] at hnew
        rcases hnew with hnone | ⟨block, hok, hone⟩
        · rw [List.append_right_eq_self.mp hnone] at hmem
          cases hmem
        · rw [List.append_cancel_left hone, List.mem_singleton] at hmem
          exact hmem ▸ ⟨_, hok.precommitters⟩

/-- **Every commit has its certificate.**  In every life of a replica, whatever it is sent, whichever of its
statements fail and wherever it is stopped: for each block it has committed, the precommits of a quorum are in
its database. -/
theorem commits_certified {l : Life} (hrun : Life.Reaches N (.first N s) l) : Certified N l.e.store l.history := by
  induction hrun with
  | refl => exact fun _ hc => absurd hc List.not_mem_nil
  | @tail l l' _ hstep ih =>
    have hacts (env : Env) (ev : Event) : Acts N env ⟨fun _ _ => True, fun _ => True⟩ l.e (final (step N env l.e ev)) :=
      step_acts ev (fun _ _ => trivial) fun _ _ _ => trivial
    cases hstep with
    | @call env ev e' _ hok =>
      obtain ⟨δ, hδ⟩ := Acts.logged (hacts env ev)
      have hnew := ih.stop (hacts env ev) (α := δ) ⟨[], by rw [hδ.trace, List.append_nil]⟩
      rw [← hδ.store, hok, Life.history, List.append_assoc, ← hδ.trace, hok] at hnew
      exact hnew
    | @stop env ev δ _ _ hδ =>
      have hnew := ih.stop (hacts env ev) hδ
      rwa [← List.append_nil (l.history ++ δ)] at hnew

open Quartet in
/-- A replica that commits a block and stops. -/
theorem commits_certified_quartet : ∃ l c r, Life.Reaches (allCorrect.node did1) (.first (allCorrect.node did1) .empty) l ∧
    c ∈ commits l.history ∧ quorum thread ≤ (precommitters (allCorrect.node did1) l.e.store c.1 r c.2.blockHash).card := by
  have hexec : (Life.play (allCorrect.node did1) (fun _ _ => true) (.first (allCorrect.node did1) .empty)
      (lock ++ [⟨3, peerVote 2 did2 0 .precommit "aaaaaaaa", false, none⟩,
        ⟨3, peerVote 3 did3 0 .precommit "aaaaaaaa", false, some 3⟩])).any (fun l => commits l.history ≠ []) = true := by
    decide +kernel
  obtain ⟨l, hreach, hl⟩ := Life.play_outcome hexec
  obtain ⟨c, hc⟩ := List.exists_mem_of_ne_nil _ (of_decide_eq_true hl)
  obtain ⟨r, hr⟩ := commits_certified hreach c hc
  exact ⟨l, c, r, hreach, hc, hr⟩

end MoltMesh.Tendermint

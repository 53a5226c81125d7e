import MoltMesh.Lib.LockVoting
import MoltMesh.Tendermint.Cluster

/-!
# The backend as a voter

The votes a replica has broadcast, the position it has reached and the lock it
holds make it, for each height, a voter of the locking protocol of
`Lib/LockVoting.lean` (`view`).  `Act.view_steps` says that every act is a sequence of
steps of that voter, provided that it hears what the protocol assumes: an
accepted proposal carries a block of its own height, and a lock is only given up
for a polka that exists.
-/

namespace MoltMesh

/-- The order of the steps within a round. -/
def Step.rank : Step → Nat
  | .propose => 0
  | .prevote => 1
  | .precommit => 2
  | _ => 3

/-- One consensus state is not before another. -/
def ConsensusState.Le (cs cs' : ConsensusState) : Prop :=
  cs.height < cs'.height ∨ (cs.height = cs'.height ∧
    (cs.round.toInt < cs'.round.toInt ∨
      (cs.round.toInt = cs'.round.toInt ∧ cs.step.rank ≤ cs'.step.rank)))

namespace ConsensusState

theorem Le.refl (cs : ConsensusState) : cs.Le cs := .inr ⟨rfl, .inr ⟨rfl, le_rfl⟩⟩

theorem Le.of_step {cs : ConsensusState} {s : Step} (h : cs.step.rank ≤ s.rank) :
    cs.Le { cs with step := s } := .inr ⟨rfl, .inr ⟨rfl, h⟩⟩

theorem Le.of_round {cs : ConsensusState} {r : Int32} (h : cs.round.toInt < r.toInt) :
    cs.Le { cs with round := r, step := .propose } := .inr ⟨rfl, .inl h⟩

theorem Le.trans {cs cs' cs'' : ConsensusState} (h : cs.Le cs') (h' : cs'.Le cs'') :
    cs.Le cs'' := by
  unfold Le at *
  omega

end ConsensusState

end MoltMesh

namespace MoltMesh.Tendermint

open MoltMesh.Lib LockVoting Pb

/-- The replica has broadcast a vote of type `ty` for `B` in round `r` of height `h`. -/
def Cast (h : Int) (e : Backend) (ty : VoteType) (r : Int) (B : String) : Prop :=
  ∃ v ∈ sentVotes e.trace, v.height = h ∧ v.round.toInt = r ∧ v.type = ty ∧ v.blockHash = B

/-- The replica as a voter on the block at height `h`; a vote for the empty hash is none. -/
def view (h : Int) (e : Backend) : Voter Int String where
  prevoted r B := B ≠ "" ∧ Cast h e .prevote r B
  precommitted r B := B ≠ "" ∧ Cast h e .precommit r B
  prevoteClosed r := h < e.cs.height ∨ (h = e.cs.height ∧
    (r < e.cs.round.toInt ∨ (r = e.cs.round.toInt ∧ 1 ≤ e.cs.step.rank)))
  precommitClosed r := h < e.cs.height ∨ (h = e.cs.height ∧
    (r < e.cs.round.toInt ∨ (r = e.cs.round.toInt ∧ 2 ≤ e.cs.step.rank)))
  lock := if h = e.cs.height ∧ 0 ≤ e.cs.lockedRound then
    some (e.cs.lockedRound.toInt, e.cs.lockedHash) else none
  precommitClosed_down := by
    intro r r' hr hc
    omega

variable {h : Int} {e e' : Backend}

theorem closes_of_le (hle : e.cs.Le e'.cs) : Voter.Closes (view h e) (view h e') where
  prevote := by
    intro r hc
    simp only [view, ConsensusState.Le] at *
    omega
  precommit := by
    intro r hc
    simp only [view, ConsensusState.Le] at *
    omega

theorem cast_congr (hs : sentVotes e'.trace = sentVotes e.trace) (ty : VoteType) (r : Int)
    (B : String) : Cast h e' ty r B ↔ Cast h e ty r B := by
  rw [Cast, Cast, hs]

theorem cast_append {v : Vote} (hs : sentVotes e'.trace = sentVotes e.trace ++ [v]) (ty : VoteType)
    (r : Int) (B : String) : Cast h e' ty r B ↔ Cast h e ty r B ∨
      (v.height = h ∧ v.round.toInt = r ∧ v.type = ty ∧ v.blockHash = B) := by
  rw [Cast, hs]
  constructor
  · rintro ⟨u, hu, hc⟩
    rcases List.mem_append.mp hu with hu | hu
    · exact .inl ⟨u, hu, hc⟩
    · exact .inr (List.mem_singleton.mp hu ▸ hc)
  · rintro (⟨u, hu, hc⟩ | hc)
    · exact ⟨u, List.mem_append_left _ hu, hc⟩
    · exact ⟨v, List.mem_append_right _ (List.mem_singleton_self v), hc⟩

/-- A replica that casts no vote for a block at height `h`, does not go back and keeps its lock
takes no step but closing rounds. -/
theorem step_close {polka : Int → String → Prop}
    (hcast : ∀ ty r B, B ≠ "" → (Cast h e' ty r B ↔ Cast h e ty r B)) (hle : e.cs.Le e'.cs)
    (hlock : (view h e').lock = (view h e).lock) : Voter.Step polka (view h e) (view h e') :=
  .close (fun r B => and_congr_right fun hB => hcast _ r B hB)
    (fun r B => and_congr_right fun hB => hcast _ r B hB) (closes_of_le hle) hlock

/-- A vote for nil, or a vote at another height, is not seen at height `h`. -/
theorem cast_of_unseen {N : Node} {vt : VoteType} {H : String}
    (hs : sentVotes e'.trace = sentVotes e.trace ++ [newVote N e vt H])
    (hun : H = "" ∨ h ≠ e.cs.height) (ty : VoteType) (r : Int) (B : String) (hB : B ≠ "") :
    Cast h e' ty r B ↔ Cast h e ty r B := by
  rw [cast_append hs]
  refine or_iff_left ?_
  rintro ⟨hh, -, -, hH⟩
  rcases hun with rfl | hne
  · exact hB hH.symm
  · exact hne hh.symm

variable {N : Node} {polka : Int → String → Prop} {B : String}

/-- The lock of a voter whose replica keeps its height and its lock. -/
theorem lock_congr (hh : e'.cs.height = e.cs.height) (hr : e'.cs.lockedRound = e.cs.lockedRound)
    (hH : e'.cs.lockedHash = e.cs.lockedHash) : (view h e').lock = (view h e).lock := by
  simp only [view, hh, hr, hH]

/-- Casting a prevote for a block the replica is not locked against. -/
theorem step_prevote (hstep : e.cs.step = .propose)
    (hcs : e'.cs = { e.cs with step := .prevote })
    (hs : sentVotes e'.trace = sentVotes e.trace ++ [newVote N e .prevote B])
    (hfree : lockedOnDifferent e.cs B = false) : Voter.Step polka (view h e) (view h e') := by
  have hle : e.cs.Le e'.cs := by
    rw [hcs]
    exact .of_step (hstep ▸ Nat.zero_le _)
  have hlock : (view h e').lock = (view h e).lock := by
    apply lock_congr <;> rw [hcs]
  by_cases hun : B = "" ∨ h ≠ e.cs.height
  · exact step_close (cast_of_unseen hs hun) hle hlock
  · obtain ⟨hB, hh⟩ := not_or.mp hun
    obtain rfl := not_not.mp hh
    refine .prevote e.cs.round.toInt B ?_ ?_ ?_ ?_ ?_ (closes_of_le hle) ?_ hlock
    · simp [view, hstep, MoltMesh.Step.rank]
    · intro r' hr'
      exact .inr ⟨rfl, .inl hr'⟩
    · intro ρ B' hl
      by_cases hlocked : 0 ≤ e.cs.lockedRound
      · obtain ⟨-, rfl⟩ : e.cs.lockedRound.toInt = ρ ∧ e.cs.lockedHash = B' := by
          simpa [view, hlocked] using hl
        simpa [lockedOnDifferent, hlocked] using hfree
      · simp [view, hlocked] at hl
    · intro r' B'
      simp only [view, cast_append hs]
      constructor
      · rintro ⟨hne, hc | ⟨-, hr, -, hH⟩⟩
        · exact .inl ⟨hne, hc⟩
        · exact .inr ⟨hr.symm, hH.symm⟩
      · rintro (⟨hne, hc⟩ | ⟨rfl, rfl⟩)
        · exact ⟨hne, .inl hc⟩
        · exact ⟨hB, .inr ⟨rfl, rfl, rfl, rfl⟩⟩
    · intro r' B'
      simp only [view, cast_append hs]
      refine and_congr_right fun _ => or_iff_left ?_
      rintro ⟨-, -, hty, -⟩
      cases hty
    · simp [view, hcs, MoltMesh.Step.rank]

/-- Casting a precommit on a polka of the current round, which locks. -/
theorem step_precommit (hstep : e.cs.step = .prevote) (hround : 0 ≤ e.cs.round.toInt)
    (hcs : e'.cs = { (lockOn e B).cs with step := .precommit })
    (hs : sentVotes e'.trace = sentVotes e.trace ++ [newVote N e .precommit B]) (hB : B ≠ "")
    (hseen : h = e.cs.height → polka e.cs.round.toInt B) :
    Voter.Step polka (view h e) (view h e') := by
  have hle : e.cs.Le e'.cs := by
    rw [hcs]
    exact .inr ⟨rfl, .inr ⟨rfl, hstep ▸ Nat.le_succ 1⟩⟩
  by_cases hh : h = e.cs.height
  · subst hh
    have hnonneg : 0 ≤ e.cs.round := Int32.le_iff_toInt_le.mpr hround
    refine .precommit e.cs.round.toInt B ?_ (hseen rfl) ?_ ?_ (closes_of_le hle) ?_ ?_
    · simp [view, hstep, MoltMesh.Step.rank]
    · intro r' B'
      simp only [view, cast_append hs]
      refine and_congr_right fun _ => or_iff_left ?_
      rintro ⟨-, -, hty, -⟩
      cases hty
    · intro r' B'
      simp only [view, cast_append hs]
      constructor
      · rintro ⟨hne, hc | ⟨-, hr, -, hH⟩⟩
        · exact .inl ⟨hne, hc⟩
        · exact .inr ⟨hr.symm, hH.symm⟩
      · rintro (⟨hne, hc⟩ | ⟨rfl, rfl⟩)
        · exact ⟨hne, .inl hc⟩
        · exact ⟨hB, .inr ⟨rfl, rfl, rfl, rfl⟩⟩
    · simp [view, hcs, lockOn, MoltMesh.Step.rank]
    · simp [view, hcs, lockOn, hnonneg]
  · refine step_close (cast_of_unseen hs (.inr hh)) hle ?_
    simp only [view, hcs, lockOn, hh, false_and, if_false]

/-- Giving up a lock for a polka on another block in a later round. -/
theorem step_unlock {polRound : Int32} (hlocked : 0 ≤ e.cs.lockedRound)
    (hlater : e.cs.lockedRound < polRound) (hother : B ≠ e.cs.lockedHash)
    (hseen : h = e.cs.height → polka polRound.toInt B) :
    Voter.Step polka (view h e) (view h (unlock e)) := by
  have hcast : ∀ ty r B, Cast h (unlock e) ty r B ↔ Cast h e ty r B :=
    cast_congr (by simp [unlock])
  have hle : e.cs.Le (unlock e).cs := .refl _
  by_cases hh : h = e.cs.height
  · subst hh
    have hlock : (view e.cs.height e).lock = some (e.cs.lockedRound.toInt, e.cs.lockedHash) := by
      simp [view, hlocked]
    refine .unlock (fun r B => and_congr_right fun _ => hcast _ r B)
      (fun r B => and_congr_right fun _ => hcast _ r B) (closes_of_le hle) hlock
      (Int32.lt_iff_toInt_lt.mp hlater) hother (hseen rfl) ?_
    simp [view, unlock]
  · refine step_close (fun ty r B _ => hcast ty r B) hle ?_
    simp only [view, unlock, hh, false_and, if_false]

/-- A replica that casts no vote and keeps height and lock. -/
theorem step_silent (hs : sentVotes e'.trace = sentVotes e.trace) (hle : e.cs.Le e'.cs)
    (hh : e'.cs.height = e.cs.height) (hr : e'.cs.lockedRound = e.cs.lockedRound)
    (hH : e'.cs.lockedHash = e.cs.lockedHash) : Voter.Step polka (view h e) (view h e') :=
  step_close (fun ty r B _ => cast_congr hs ty r B) hle (lock_congr hh hr hH)

/-- A replica that casts no vote and keeps its consensus state. -/
theorem step_same (hs : sentVotes e'.trace = sentVotes e.trace) (hcs : e'.cs = e.cs) :
    Voter.Step polka (view h e) (view h e') :=
  step_silent hs (hcs ▸ .refl _) (by rw [hcs]) (by rw [hcs]) (by rw [hcs])

/-- Casting a nil vote on the way to a later step of the round. -/
theorem step_nil (ty : VoteType) (s : MoltMesh.Step) (hle : e.cs.step.rank ≤ s.rank)
    (hcs : e'.cs = { e.cs with step := s })
    (hs : sentVotes e'.trace = sentVotes e.trace ++ [newVote N e ty ""]) :
    Voter.Step polka (view h e) (view h e') := by
  refine step_close (cast_of_unseen hs (.inl rfl)) ?_ ?_
  · rw [hcs]
    exact .of_step hle
  · apply lock_congr <;> rw [hcs]

/-- Leaving a height for the next one. -/
theorem step_leave (hs : sentVotes e'.trace = sentVotes e.trace)
    (hcs : e'.cs = .start (e.cs.height + 1)) : Voter.Step polka (view h e) (view h e') := by
  have hle : e.cs.Le e'.cs := by
    rw [hcs]
    exact .inl (Int.lt_succ _)
  have hcast : ∀ ty r B, Cast h e' ty r B ↔ Cast h e ty r B := cast_congr hs
  by_cases hh : h = e.cs.height
  · subst hh
    refine .leave (fun r B => and_congr_right fun _ => hcast _ r B)
      (fun r B => and_congr_right fun _ => hcast _ r B) (closes_of_le hle) fun r => .inl ?_
    rw [hcs]
    exact Int.lt_succ _
  · refine step_close (fun ty r B _ => hcast ty r B) hle ?_
    have hneg : ¬(0 : Int32) ≤ -1 := by decide
    simp only [view, hcs, ConsensusState.start, hh, hneg, false_and, and_false, if_false]

/-! ## Every act is a sequence of steps -/

section Acts

variable {env : Env} {P : Proviso}

theorem steps_accept {prop : Proposal} {block : ThreadBlock} (hok : ProposalOk N e prop block)
    (hunlock : lockedOnDifferent e.cs block.blockHash = true → polcSupersedes e.cs prop = true →
      ∃ B, B ≠ e.cs.lockedHash ∧ (h = e.cs.height → polka prop.polRound.toInt B)) :
    Relation.ReflTransGen (Voter.Step polka) (view h e)
      (view h (acceptProposal N env e prop block)) := by
  rcases acceptProposal_cases N env e prop block with ⟨-, -, heq⟩ | ⟨hl, hp, heq⟩ | ⟨hl, heq⟩
  · rw [heq]
    refine .single (step_nil (N := N) .prevote .prevote ?_ ?_ ?_)
    · exact hok.step ▸ Nat.zero_le _
    · simp [toPrevote]
    · simp [toPrevote]
      rfl
  · obtain ⟨B, hB, hseen⟩ := hunlock hl hp
    rw [heq]
    have hlocked : 0 ≤ e.cs.lockedRound := by
      simp [lockedOnDifferent] at hl
      exact hl.1
    refine .head (step_unlock hlocked (by simpa [polcSupersedes] using hp) hB hseen) (.single ?_)
    refine step_prevote (N := N) (B := block.blockHash) hok.step ?_ ?_ ?_
    · simp [toPrevote, unlock]
    · simp [toPrevote, unlock]
      rfl
    · rfl
  · rw [heq]
    refine .single (step_prevote (N := N) (B := block.blockHash) hok.step ?_ ?_ hl)
    · simp [toPrevote]
    · simp [toPrevote]
      rfl

/-- Entering a later round. -/
theorem step_enterRound {r : Int32} (hr : e.cs.round.toInt < r.toInt) :
    Voter.Step polka (view h e) (view h (proposing N env (enterRound N env e r))) := by
  have hp := proposing_spec N env (enterRound N env e r)
  have hcs : (proposing N env (enterRound N env e r)).cs =
      { e.cs with round := r, step := .propose } := hp.cs.trans (saveState_cs N env _)
  refine step_silent (hp.sentVotes.trans (sentVotes_trace_write N env _ _)) ?_ ?_ ?_ ?_ <;> rw [hcs]
  exact .of_round hr

theorem toInt_add_one {r : Int32} (h : r ≠ Int32.maxValue) : (r + 1).toInt = r.toInt + 1 := by
  have hlt : r.toInt < 2147483647 := lt_of_le_of_ne (Int.lt_add_one_iff.mp r.toInt_lt) fun he =>
    h (Int32.toInt_inj.mp he)
  have hge := r.le_toInt
  rw [Int32.toInt_add]
  exact Int.bmod_eq_of_le (by simp; omega) (by simp; omega)

/-- **Every act is a sequence of steps of the voter**, for every height. -/
theorem Act.view_steps {polkas : Int → Int → String → Prop} (hact : Act N env P e e')
    (hround : 0 ≤ e.cs.round.toInt) (hprop : ∀ b, e.proposal = some b → b.height = e.cs.height)
    (hwin : ∀ H, H ≠ "" → Winner N env e .prevote H → polkas e.cs.height e.cs.round.toInt H)
    (hunlock : ∀ prop block, ProposalOk N e prop block → P.heard e (.proposal prop) →
      lockedOnDifferent e.cs block.blockHash = true → polcSupersedes e.cs prop = true →
      ∃ B, B ≠ e.cs.lockedHash ∧ polkas e.cs.height prop.polRound.toInt B)
    (hadv : P.advance e.cs → e.cs.round ≠ Int32.maxValue) (h : Int) :
    Relation.ReflTransGen (Voter.Step (polkas h)) (view h e) (view h e') := by
  cases hact with
  | arm p v c => exact .single (step_same rfl rfl)
  | start hs =>
    have hp := proposing_spec N env { e with started := true }
    exact .single (step_same hp.sentVotes hp.cs)
  | enqueue entry => exact .single (step_same (by simp) (by simp))
  | saveVote hv hh hr => exact .single (step_same (by simp) (by simp))
  | buffer hv hh hr => exact .single (step_same rfl rfl)
  | @flush r hr =>
    have hq := quiet_writeAll N env ((futureVotesAt e r).map .saveVote) e
    exact .single (step_same hq.sentVotes hq.cs)
  | accept hp hh =>
    refine steps_accept hp fun hl hs => ?_
    obtain ⟨B, hB, hseen⟩ := hunlock _ _ hp hh hl hs
    exact ⟨B, hB, fun heq => heq ▸ hseen⟩
  | prevoteNil hs =>
    refine .single (step_nil (N := N) .prevote .prevote ?_ ?_ ?_)
    · exact hs ▸ Nat.zero_le _
    · simp [toPrevote]
    · simp [toPrevote]
  | precommitNil hs =>
    refine .single (step_nil (N := N) .precommit .precommit ?_ ?_ ?_)
    · exact hs ▸ Nat.le_succ 1
    · simp [toPrecommit]
    · simp [toPrecommit]
  | precommit hs hw hp hn =>
    refine .single (step_precommit (N := N) hs hround ?_ ?_ hn fun heq => heq ▸ hwin _ hn hw)
    · simp [toPrecommit]
    · simp [toPrecommit, lockOn]
      rfl
  | nextRound hst hs ha =>
    refine .single (step_enterRound ?_)
    rw [toInt_add_one (hadv ha)]
    exact Int.lt_succ _
  | skip hst hr => exact .single (step_enterRound (Int32.lt_iff_toInt_lt.mp hr))
  | commitFails hc => exact .single (step_same (by simp [markCommit]) rfl)
  | commitPanics hc hf hl => exact .single (step_same (by simp [markCommit]) (by simp [markCommit]))
  | @commit block hst hc hf hl =>
    have hp := proposing_spec N env (committed N env e block)
    refine .single (step_leave (hp.sentVotes.trans (sentVotes_committed N env e block)) ?_)
    rw [hp.cs, committed_cs, hprop _ hc.proposal]

end Acts

end MoltMesh.Tendermint

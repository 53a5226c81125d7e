import MoltMesh.Tendermint.Buffer

/-!
# Armed deadlines

Each step of a round has a deadline after which `Tick` leaves the step.  The deadline is
armed when the step is entered, and a replica that is started arms the one of `propose`
whatever step it has loaded.  A quorum of precommits disarms the deadline of `precommit`
before the block is looked for and saved.
-/

namespace MoltMesh.Tendermint

open MoltMesh.Lib Pb

variable {N : Node} {env : Env} {e e' : Backend}

/-- The deadline of the current step is armed. -/
def Armed (e : Backend) : Prop :=
  (e.cs.step = .propose → e.proposeAt.isSome = true) ∧
    (e.cs.step = .prevote → e.prevoteAt.isSome = true) ∧
    (e.cs.step = .precommit → e.precommitAt.isSome = true)

instance (e : Backend) : Decidable (Armed e) := inferInstanceAs (Decidable (_ ∧ _))

/-- The step is not one in which a vote has been cast. -/
def Unvoted (e : Backend) : Prop := e.cs.step ≠ .prevote ∧ e.cs.step ≠ .precommit

instance (e : Backend) : Decidable (Unvoted e) := inferInstanceAs (Decidable (_ ∧ _))

/-- Step and deadlines are as before. -/
structure SameDeadlines (e e' : Backend) : Prop where
  started : e'.started = e.started
  step : e'.cs.step = e.cs.step
  proposeAt : e'.proposeAt = e.proposeAt
  prevoteAt : e'.prevoteAt = e.prevoteAt
  precommitAt : e'.precommitAt = e.precommitAt

theorem Armed.of_same (h : Armed e) (hsame : SameDeadlines e e') : Armed e' := by
  unfold Armed
  rw [hsame.step, hsame.proposeAt, hsame.prevoteAt, hsame.precommitAt]
  exact h

theorem Quiet.sameDeadlines (h : Quiet e e') : SameDeadlines e e' :=
  ⟨h.started, by rw [h.cs], h.proposeAt, h.prevoteAt, h.precommitAt⟩

theorem armed_toPrevote (e : Backend) : Armed (toPrevote N env e) := by
  simp [Armed, toPrevote]

theorem armed_toPrecommit (e : Backend) : Armed (toPrecommit N env e) := by
  simp [Armed, toPrecommit]

/-- Proposing leaves step and deadlines alone. -/
theorem enterPropose_sameDeadlines (h : enterPropose N env e = .ok e') : SameDeadlines e e' := by
  have hrefl := (Quiet.refl e).sameDeadlines
  unfold enterPropose at h
  split at h
  · cases h
  · obtain rfl := Except.ok.inj h
    exact hrefl
  · unfold buildProposal at h
    cases hd : dequeuePendingEntries N env e maxPendingPerBlock with
    | none =>
      rw [hd] at h
      obtain rfl := Except.ok.inj h
      exact hrefl
    | some x =>
      obtain ⟨entries, e₁⟩ := x
      rw [hd] at h
      have hquiet := (dequeuePendingEntries_spec N env hd).1.sameDeadlines
      dsimp only at h
      split at h
      · obtain rfl := Except.ok.inj h
        exact hquiet
      · obtain rfl := Except.ok.inj h
        exact ⟨hquiet.started, hquiet.step, hquiet.proposeAt, hquiet.prevoteAt, hquiet.precommitAt⟩

theorem armed_armPropose (h : Unvoted e) : Armed (armPropose N env e) :=
  ⟨fun _ => rfl, fun hs => absurd hs h.1, fun hs => absurd hs h.2⟩

theorem proposeAndArm_armed (hun : Unvoted e) (h : proposeAndArm N env e = .ok e') :
    Armed e' ∧ e'.started = e.started := by
  unfold proposeAndArm at h
  cases he : enterPropose N env e with
  | error e₁ =>
    rw [he] at h
    cases h
  | ok e₁ =>
    rw [he] at h
    obtain rfl := Except.ok.inj h
    have hsame := enterPropose_sameDeadlines he
    refine ⟨armed_armPropose ?_, hsame.started⟩
    rw [Unvoted, hsame.step]
    exact hun

theorem enterRound_unvoted (e : Backend) (r : Int32) : Unvoted (enterRound N env e r) := by
  simp [Unvoted, enterRound]

/-! ## The handlers -/

theorem handleProposal_armed (hA : Armed e) {prop : Proposal}
    (h : handleProposal N env e prop = .ok e') : Armed e' := by
  unfold handleProposal at h
  split at h
  · exact Except.ok.inj h ▸ hA
  split at h
  · exact Except.ok.inj h ▸ hA
  split at h
  · cases h
  · exact Except.ok.inj h ▸ hA
  split at h
  · exact Except.ok.inj h ▸ hA
  split at h
  · cases h
  · exact Except.ok.inj h ▸ hA
  · obtain rfl := Except.ok.inj h
    exact armed_toPrevote _

theorem onPrevote_armed (hA : Armed e) (v : Vote) : Armed (onPrevote N env e v) := by
  unfold onPrevote
  dsimp only
  split_ifs
  · exact hA
  · exact hA
  · exact armed_toPrecommit _

/-- A new height is entered with the deadline of `propose` armed. -/
theorem commitBlock_armed {block : ThreadBlock} (hsaves : ∀ b, env.fails (.saveBlock b) = false)
    (h : commitBlock N env e block = .ok e') : Armed e' := by
  unfold commitBlock at h
  dsimp only at h
  rw [hsaves, if_neg Bool.false_ne_true] at h
  split at h
  · cases h
  · refine Armed.of_same (armed_armPropose ?_) (enterPropose_sameDeadlines h)
    simp [Unvoted, enterHeight, ConsensusState.start]

theorem onPrecommit_armed (hA : Armed e) {v : Vote} (hsaves : ∀ b, env.fails (.saveBlock b) = false)
    (hheight : v.height = e.cs.height) (hround : v.round = e.cs.round)
    (hseen : ∀ H, e.cs.step = .precommit → Winner N env e .precommit H → H ≠ "" →
      e.proposal.map ThreadBlock.blockHash = some H)
    (h : onPrecommit N env e v = .ok e') : Armed e' := by
  unfold onPrecommit at h
  split at h
  · exact Except.ok.inj h ▸ hA
  rename_i hstep
  rw [hheight, hround] at h
  dsimp only at h
  split at h
  · exact Except.ok.inj h ▸ hA
  rename_i hq
  obtain ⟨hcount, hnil⟩ := not_or.mp hq
  have hblock := hseen _ (not_not.mp hstep) ⟨_, rfl, not_lt.mp hcount⟩ hnil
  obtain ⟨block, hprop, hhash⟩ := Option.map_eq_some_iff.mp hblock
  rw [hprop] at h
  dsimp only at h
  split at h
  · next hne => exact absurd hhash hne
  · exact commitBlock_armed hsaves h

theorem checkFutureRoundSkip_armed (hA : Armed e) {r : Int32}
    (h : checkFutureRoundSkip N env e r = .ok e') : Armed e' := by
  unfold checkFutureRoundSkip at h
  dsimp only at h
  split at h
  · exact Except.ok.inj h ▸ hA
  · exact (proposeAndArm_armed (enterRound_unvoted _ _) h).1

theorem tickPropose_armed (hA : Armed e) : Armed (tickPropose N env e) := by
  unfold tickPropose
  dsimp only
  split_ifs with _ hstep
  · exact armed_toPrevote _
  · exact ⟨fun hs => absurd hs hstep, hA.2.1, hA.2.2⟩
  · exact hA

theorem tickPrevote_armed (hA : Armed e) : Armed (tickPrevote N env e) := by
  unfold tickPrevote
  dsimp only
  split_ifs with _ hstep
  · exact armed_toPrecommit _
  · exact ⟨hA.1, fun hs => absurd hs hstep, hA.2.2⟩
  · exact hA

theorem tickPrecommit_armed (hA : Armed e) (h : tickPrecommit N env e = .ok e') : Armed e' := by
  unfold tickPrecommit at h
  dsimp only at h
  split_ifs at h with _ hstep
  · exact (proposeAndArm_armed (enterRound_unvoted _ _) h).1
  · exact Except.ok.inj h ▸ ⟨hA.1, hA.2.1, fun hs => absurd hs hstep⟩
  · exact Except.ok.inj h ▸ hA

theorem tick_armed (hA : Armed e) (h : tick N env e = .ok e') : Armed e' := by
  unfold tick at h
  split at h
  · exact Except.ok.inj h ▸ hA
  · exact tickPrecommit_armed (tickPrevote_armed (tickPropose_armed hA)) h

/-- The condition on a call: a block can be saved, and a quorum of precommits that ends a round is for
the block that has been proposed. -/
structure Prompt (N : Node) (e : Backend) (env : Env) (ev : Event) : Prop where
  saves : ∀ block, env.fails (.saveBlock block) = false
  seen : ∀ v ∈ heardIn N e ev, v.type = .precommit → v.round = e.cs.round → e.cs.step = .precommit →
    ∀ H, Winner N env (write N env e (.saveVote v)) .precommit H → H ≠ "" →
      e.proposal.map ThreadBlock.blockHash = some H

theorem acceptVote_armed (hA : Armed e) {v : Vote} (hv : VoteOk N e v)
    (hsaves : ∀ block, env.fails (.saveBlock block) = false)
    (hseen : v.type = .precommit → v.round = e.cs.round → e.cs.step = .precommit →
      ∀ H, Winner N env (write N env e (.saveVote v)) .precommit H → H ≠ "" →
        e.proposal.map ThreadBlock.blockHash = some H)
    (h : acceptVote N env e v = .ok e') : Armed e' := by
  have hwrite : Armed (write N env e (.saveVote v)) := hA.of_same (quiet_write N env e _).sameDeadlines
  unfold acceptVote at h
  split at h
  · refine checkFutureRoundSkip_armed (hA.of_same ⟨?_, ?_, ?_, ?_, ?_⟩) h <;>
      unfold bufferFutureVote <;> split_ifs <;> rfl
  rename_i hlater
  split at h
  · exact Except.ok.inj h ▸ hwrite
  rename_i hearlier
  have hround : v.round = e.cs.round :=
    Int32.le_antisymm (Int32.not_lt.mp hlater) (Int32.not_lt.mp hearlier)
  split at h
  · exact Except.ok.inj h ▸ hA
  dsimp only at h
  split at h
  · exact Except.ok.inj h ▸ onPrevote_armed hwrite v
  · rename_i htype
    refine onPrecommit_armed hwrite hsaves (by rw [write_cs, hv.height]) (by rw [write_cs, hround]) ?_ h
    intro H hstep hW hne
    rw [write_cs] at hstep
    rw [(quiet_write N env e _).proposal]
    exact hseen htype hround hstep H hW hne
  · exact Except.ok.inj h ▸ hwrite

theorem stepInbound_armed (hA : Armed e) {msg : ConsensusMsg} (hok : Prompt N e env (.inbound msg))
    (h : step N env e (.inbound msg) = .ok e') : Armed e' := by
  obtain ⟨i, payload⟩ := msg
  cases payload with
  | committedBlock b =>
    simp only [step, stepInbound, ite_self] at h
    exact Except.ok.inj h ▸ hA
  | proposal prop =>
    simp only [step, stepInbound] at h
    split at h
    · exact Except.ok.inj h ▸ hA
    · exact handleProposal_armed hA h
  | vote v =>
    by_cases hheard : e.started = true ∧ VoteOk N e v
    · rw [step_of_heard hheard.1 hheard.2] at h
      refine acceptVote_armed hA hheard.2 hok.saves (hok.seen v ?_) h
      rw [heardIn, if_pos hheard]
      exact List.mem_singleton_self v
    · have hsame := @step_of_not_heard N env e v i hheard
      rw [h] at hsame
      exact (show e' = e from hsame) ▸ hA

/-! ## Lives -/

/-- A started replica has the deadline of its step armed; one that is not has cast no vote in the
round it will start with. -/
structure Timed (e : Backend) : Prop where
  armed : e.started = true → Armed e
  fresh : e.started = false → Unvoted e

theorem Timed.step (h : Timed e) {ev : Event} (hok : Prompt N e env ev)
    (hstep : step N env e ev = .ok e') : Timed e' := by
  cases hst : e.started with
  | false =>
    cases ev with
    | pump =>
      simp only [Tendermint.step, pump, hst, if_neg Bool.false_ne_true] at hstep
      have hun : Unvoted { e with started := true } := h.fresh hst
      obtain ⟨harmed, hstarted⟩ := proposeAndArm_armed hun hstep
      exact ⟨fun _ => harmed, fun hf => absurd (hf.symm.trans hstarted) Bool.false_ne_true⟩
    | inbound msg =>
      simp only [Tendermint.step, stepInbound, hst, if_pos] at hstep
      exact Except.ok.inj hstep ▸ h
    | tick =>
      simp only [Tendermint.step, tick, hst, if_pos] at hstep
      exact Except.ok.inj hstep ▸ h
    | enqueue entry =>
      obtain rfl := Except.ok.inj hstep
      refine ⟨fun ht => absurd (hst.symm.trans ((write_started ..).symm.trans ht)) Bool.false_ne_true,
        fun _ => ?_⟩
      rw [Unvoted, write_cs]
      exact h.fresh hst
  | true =>
    have hA := h.armed hst
    have hacts : Acts N env ⟨fun _ _ => True, fun _ => True⟩ e (final (Tendermint.step N env e ev)) :=
      step_acts ev (fun _ _ => trivial) fun _ _ _ => trivial
    rw [hstep] at hacts
    refine ⟨fun _ => ?_, fun hf => absurd (hf.symm.trans (Acts.started hacts hst)) Bool.false_ne_true⟩
    cases ev with
    | pump =>
      simp only [Tendermint.step, pump, hst, if_pos] at hstep
      exact Except.ok.inj hstep ▸ hA
    | inbound msg => exact stepInbound_armed hA hok hstep
    | tick => exact tick_armed hA hstep
    | enqueue entry =>
      obtain rfl := Except.ok.inj hstep
      exact hA.of_same (quiet_write N env e _).sameDeadlines

/-- The condition on a stop: the step that is persisted then is not one in which a vote has been
cast. -/
def Rested (N : Node) (l : Life) (δ : List Effect) : Prop := Unvoted (l.rebuilt N δ).e

theorem Timed.lifeStep {l l' : Life} (h : Timed l.e) (hstep : Life.Step N (Prompt N) (Rested N) l l') :
    Timed l'.e := by
  cases hstep with
  | call hcall hok => exact h.step hcall hok
  | stop _ hstop _ => exact ⟨fun hst => absurd hst Bool.false_ne_true, fun _ => hstop⟩

/-- **Armed deadlines**: in every life that is begun and begun again from a state in which no vote has
been cast, and in which each call meets the condition, the deadline of the current step is armed from
the first `Pump` on. -/
theorem deadline_armed {s : Store} (hs : Unvoted (Life.first N s).e) {l : Life}
    (hrun : Relation.ReflTransGen (Life.Step N (Prompt N) (Rested N)) (.first N s) l)
    (hstarted : l.e.started = true) : Armed l.e := by
  have htimed : Timed l.e := by
    clear hstarted
    induction hrun with
    | refl => exact ⟨fun hst => absurd hst Bool.false_ne_true, fun _ => hs⟩
    | tail _ hstep ih => exact ih.lifeStep hstep
  exact htimed.armed hstarted

/-! ## Runs -/

/-- `Prompt` and `Rested`, as a check. -/
def punctual (N : Node) (l : Life) (t : Turn) : Bool :=
  (match t.ev with
    | .inbound ⟨_, .vote v⟩ =>
      let e := write N t.environment l.e (.saveVote v)
      let (H, c) := majority t.environment
        (countedVotes N t.environment e e.cs.height e.cs.round .precommit)
      c < quorum N.thread || H = "" || l.e.proposal.map ThreadBlock.blockHash = some H
    | _ => true) &&
  t.stop.all fun n => Unvoted (l.rebuilt N (effects N l.e t.environment t.ev n)).e

theorem prompt_of_punctual {l : Life} {t : Turn} (h : punctual N l t = true) :
    Prompt N l.e t.environment t.ev := by
  simp only [punctual, Bool.and_eq_true] at h
  refine ⟨fun block => Bool.and_false _, ?_⟩
  intro v hv _ _ _ H hW hne
  obtain ⟨c, hmajority, hc⟩ := hW
  obtain ⟨-, -, i, hev⟩ := mem_heardIn hv
  have hvote := h.1
  rw [hev] at hvote
  dsimp only at hvote
  rw [hmajority] at hvote
  simpa [hne, not_lt.mpr hc] using hvote

theorem rested_of_punctual {l : Life} {t : Turn} {n : Nat} (h : punctual N l t = true)
    (hn : t.stop = some n) : Rested N l (effects N l.e t.environment t.ev n) := by
  simp only [punctual, Bool.and_eq_true, hn] at h
  have hun : Unvoted _ := of_decide_eq_true h.2
  exact hun

namespace Quartet

/-- The process stops when it has prevoted, and is started again. -/
def prevoteAndStop : List Turn :=
  [⟨0, .pump, false, none⟩,
   ⟨1, peerProposal 2 did2 0 (-1) (block 0 "aaaaaaaa"), false, none⟩, ⟨2, .tick, false, some 0⟩,
   ⟨3, .pump, false, none⟩]

/-- Precommits for a block that `did1` has not seen make a quorum. -/
def unseen : List Turn :=
  [⟨0, .pump, false, none⟩, ⟨2000, .tick, false, none⟩, ⟨4000, .tick, false, none⟩,
   ⟨4001, peerVote 2 did2 0 .precommit "aaaaaaaa", false, none⟩,
   ⟨4002, peerVote 3 did3 0 .precommit "aaaaaaaa", false, none⟩,
   ⟨4003, peerVote 4 did4 0 .precommit "aaaaaaaa", false, none⟩]

/-- `did1` has precommitted block `a` and `did2` has too. -/
def almost : List Turn := lock ++ [⟨3, peerVote 2 did2 0 .precommit "aaaaaaaa", false, none⟩]

/-- An environment in which no block can be saved. -/
def blockless : Env := { clock 4 with fails := fun w => w matches .saveBlock _ }

/-- A block is committed; the process stops in the next height and is started again. -/
def commitAndStop : List Turn :=
  almost ++ [⟨4, peerVote 3 did3 0 .precommit "aaaaaaaa", false, none⟩, ⟨5, .tick, false, some 0⟩,
    ⟨6, .pump, false, none⟩]

/-- **A step without a deadline**: a replica that is started again in the step `prevote`, one that has
a quorum of precommits for a block it has not seen, and one that fails to save the block. -/
theorem deadline_disarmed :
    (∀ turns ∈ [prevoteAndStop, unseen], ∃ l,
      Life.play (allCorrect.node did1) (fun _ _ => true) (.first (allCorrect.node did1) .empty) turns =
        some l ∧
      Life.Reaches (allCorrect.node did1) (.first (allCorrect.node did1) .empty) l ∧
      l.e.started = true ∧ ¬Armed l.e) ∧
    ∃ l, Life.Reaches (allCorrect.node did1) (.first (allCorrect.node did1) .empty) l ∧
      ∃ e', step (allCorrect.node did1) blockless l.e (peerVote 3 did3 0 .precommit "aaaaaaaa") = .ok e' ∧
        e'.started = true ∧ ¬Armed e' := by
  constructor
  · have hexec : ∀ turns ∈ [prevoteAndStop, unseen],
        (Life.play (allCorrect.node did1) (fun _ _ => true) (.first (allCorrect.node did1) .empty)
          turns).any (fun l => l.e.started = true ∧ ¬Armed l.e) = true := by
      decide +kernel
    intro turns hmem
    obtain ⟨l, hplay, hl⟩ := (Option.any_eq_true _ _).mp (hexec turns hmem)
    exact ⟨l, hplay, Life.play_reaches hplay, of_decide_eq_true hl⟩
  · have hexec : (Life.play (allCorrect.node did1) (fun _ _ => true)
        (.first (allCorrect.node did1) .empty) almost).any (fun l =>
          (step (allCorrect.node did1) blockless l.e
            (peerVote 3 did3 0 .precommit "aaaaaaaa")).toOption.any fun e' =>
              e'.started = true ∧ ¬Armed e') = true := by
      decide +kernel
    obtain ⟨l, hrun, hl⟩ := Life.play_outcome hexec
    obtain ⟨e', he', harmed⟩ := (Option.any_eq_true _ _).mp hl
    refine ⟨l, hrun, e', ?_, of_decide_eq_true harmed⟩
    cases hstep : step (allCorrect.node did1) blockless l.e
        (peerVote 3 did3 0 .precommit "aaaaaaaa") with
    | ok e₁ =>
      rw [hstep] at he'
      exact congrArg Except.ok (Option.some.inj he')
    | error e₁ =>
      rw [hstep] at he'
      cases he'

theorem deadline_armed_commit : ∃ l, Relation.ReflTransGen
      (Life.Step (allCorrect.node did1) (Prompt (allCorrect.node did1)) (Rested (allCorrect.node did1)))
      (.first (allCorrect.node did1) .empty) l ∧
    l.e.started = true ∧ l.e.cs.height = 2 ∧ Armed l.e := by
  have hexec : (Life.play (allCorrect.node did1) (punctual (allCorrect.node did1))
      (.first (allCorrect.node did1) .empty) commitAndStop).any (fun l =>
        l.e.started = true ∧ l.e.cs.height = 2) = true := by
    decide +kernel
  obtain ⟨l, hplay, hl⟩ := (Option.any_eq_true _ _).mp hexec
  obtain ⟨hstarted, hheight⟩ := of_decide_eq_true hl
  have hrun := Life.play_run (fun _ _ h => prompt_of_punctual h)
    (fun _ _ _ h hn => rested_of_punctual h hn) hplay
  exact ⟨l, hrun, hstarted, hheight, deadline_armed (by decide) hrun hstarted⟩

end Quartet

end MoltMesh.Tendermint

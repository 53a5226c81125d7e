import MoltMesh.Tendermint.Crash
import MoltMesh.Tendermint.Script

/-!
# Lives of a replica

A `Life` is a replica across its stops.  Its promises are kept (`Alive.run`) if
every call is careful and every stop is clean, and each of the conditions is
needed: `restart_breaks_vows` has a life for each.
-/

namespace MoltMesh.Tendermint

open MoltMesh.Lib Pb

variable {N : Node} {env : Env} {P : Proviso} {e e' : Backend} {α δ : List Effect}

/-! ## A replica's life -/

/-- A replica across its stops: the process that runs now, and what those before it have done. -/
structure Life where
  e : Backend
  past : List Effect

/-- All that a replica has done. -/
def Life.history (l : Life) : List Effect := l.past ++ l.e.trace

/-- A replica on its first store. -/
def Life.first (N : Node) (s : Store) : Life := ⟨newTendermintBackend N s, []⟩

/-- A process that stops after `δ`, built again from the database. -/
def Life.rebuilt (N : Node) (l : Life) (δ : List Effect) : Life :=
  ⟨newTendermintBackend N (replay N.thread.id l.e.store δ), l.history ++ δ⟩

/-- A call returns, or the process stops within it after some of its effects; `call` and `stop` say
which calls and stops are admitted. -/
inductive Life.Step (N : Node) (call : Backend → Env → Event → Prop)
    (stop : Life → List Effect → Prop) (l : Life) : Life → Prop
  | call {env : Env} {ev : Event} {e' : Backend} (hcall : call l.e env ev)
    (hstep : step N env l.e ev = .ok e') : Life.Step N call stop l ⟨e', l.past⟩
  | stop {env : Env} {ev : Event} {δ : List Effect} (hcall : call l.e env ev) (hstop : stop l δ)
    (hδ : l.e.trace ++ δ <+: (final (step N env l.e ev)).trace) :
    Life.Step N call stop l (l.rebuilt N δ)

/-- The condition on a call: an accepted proposal is for the height of its block, the round stays
in range, and the consensus state can be saved. -/
structure Careful (N : Node) (e : Backend) (env : Env) (ev : Event) : Prop where
  proposal : ∀ msg prop block, ev = .inbound msg → msg.payload = .proposal prop →
    ProposalOk N e prop block → block.height = prop.height
  round : InRange e env ev
  saves : ∀ cs, env.fails (.saveConsensusState cs) = false

/-- The condition on a stop: the state has been saved since the last vote was broadcast, and it is
not that of a round in which the replica has proposed. -/
structure CleanStop (N : Node) (l : Life) (δ : List Effect) : Prop where
  settled : Settled δ
  proposal : ∀ p ∈ sentProposals (l.history ++ δ), p.height = (l.rebuilt N δ).e.cs.height →
    p.round ≠ (l.rebuilt N δ).e.cs.round

/-- What holds of a replica across its stops. -/
structure Alive (N : Node) (l : Life) : Prop where
  sane : Group.Sane N l.e
  vows : Vows l.e.cs l.history
  saved : l.e.store.loadConsensusState N.thread.id = l.e.cs
  fresh : l.e.started = false → ∀ p ∈ sentProposals l.history, p.height = l.e.cs.height →
    p.round ≠ l.e.cs.round

/-- The condition on a call as a proviso of its acts. -/
def carefulProviso (N : Node) : Proviso where
  heard e p := ∀ prop block, p = .proposal prop → ProposalOk N e prop block →
    block.height = prop.height
  advance cs := cs.round ≠ Int32.maxValue

theorem sentProposals_ran (env : Env) (w : Write) : sentProposals (ran env w) = [] := by
  unfold ran
  split <;> rfl

/-- A replica that is not started after an act has not been proposing in it. -/
theorem Trail.unstarted (htrail : Trail N env P e e' δ)
    (hst : e.started = true → e'.started = true) (hun : e'.started = false) :
    sentProposals δ = [] ∧ e'.cs.height = e.cs.height ∧ e'.cs.round = e.cs.round := by
  have hvote : ∀ ty H, sentProposals (voteTrail N env e ty H e'.cs) = [] := by
    intro ty H
    rw [voteTrail, sentProposals_append, sentProposals_append, sentProposals_ran, sentProposals_ran]
    rfl
  have hno : e.started = true → False := fun h => Bool.false_ne_true (hun.symm.trans (hst h))
  cases htrail with
  | plain hplain hcs =>
    exact ⟨sentProposals_neutrals (neutral_map_write hplain), by rw [hcs], by rw [hcs]⟩
  | prevote _ _ hcs | precommitNil _ hcs => exact ⟨hvote _ _, by rw [hcs], by rw [hcs]⟩
  | precommit _ _ hcs => exact ⟨hvote _ _, by rw [hcs]; rfl, by rw [hcs]; rfl⟩
  | unlock _ _ hcs => exact ⟨hvote _ _, by rw [hcs], by rw [hcs]⟩
  | start _ hst' _ _ => exact absurd (hun.symm.trans hst') Bool.false_ne_true
  | round h _ _ _ => exact absurd h hno
  | commitFails _ hcs => exact ⟨rfl, by rw [hcs], by rw [hcs]⟩
  | commitPanics _ _ hcs => exact ⟨rfl, by rw [hcs], by rw [hcs]⟩
  | commit h _ _ _ => exact absurd h hno

section Alive

variable {past : List Effect} (hsaves : ∀ cs, env.fails (.saveConsensusState cs) = false)

include hsaves

theorem Alive.act (hl : Alive N ⟨e, past⟩) (hact : Act N env (carefulProviso N) e e') :
    Alive N ⟨e', past⟩ := by
  obtain ⟨δ, hlog, htrail⟩ := hact.trail
  have hhist : (Life.mk e' past).history = (Life.mk e past).history ++ δ := by
    simp only [Life.history, hlog.trace, List.append_assoc]
  have hsane : Group.Sane N e' := by
    refine hl.sane.act ?_ id hact
    exact fun prop block hok hheard => hheard prop block rfl hok
  refine ⟨hsane, ?_, ?_, ?_⟩
  · rw [hhist]
    change Vows e'.cs _
    rw [← htrail.lastSaved_eq hsaves]
    exact htrail.stop hsaves hl.vows hl.sane.proposal id hl.fresh (List.prefix_refl δ)
      (htrail.settled hsaves)
  · change e'.store.loadConsensusState N.thread.id = e'.cs
    rw [hlog.store, loadConsensusState_replay, show e.store.loadConsensusState _ = e.cs from hl.saved,
      htrail.lastSaved_eq hsaves]
  · intro hun
    obtain ⟨hprops, hh, hr⟩ := htrail.unstarted hact.deed.started hun
    have hun' : e.started = false := by
      by_contra hst
      exact Bool.false_ne_true (hun.symm.trans (hact.deed.started (Bool.eq_true_of_not_eq_false hst)))
    rw [hhist, sentProposals_append, hprops, List.append_nil]
    change ∀ p : Proposal, p ∈ _ → p.height = e'.cs.height → p.round ≠ e'.cs.round
    rw [hh, hr]
    exact hl.fresh hun'

theorem Alive.acts (hl : Alive N ⟨e, past⟩) (hacts : Acts N env (carefulProviso N) e e') :
    Alive N ⟨e', past⟩ := by
  induction hacts with
  | refl => exact hl
  | tail _ hact ih => exact ih.act hsaves hact

omit hsaves in
theorem Acts.logged (hacts : Acts N env P e e') : ∃ δ, Logged N e e' δ := by
  induction hacts with
  | refl => exact ⟨[], .refl N e⟩
  | tail _ hact ih =>
    obtain ⟨δ, hδ⟩ := ih
    obtain ⟨δ', hδ', -⟩ := hact.trail
    exact ⟨_, hδ.trans hδ'⟩

omit hsaves in
theorem Settled.of_append {t t' : List Effect} (h : Settled (t ++ t')) : Settled t' :=
  fun i v s hs => h i v s (hs.trans (List.suffix_append t t'))

/-- **Wherever a call is stopped, the promises are kept by the state that is saved then.** -/
theorem Alive.stop (hl : Alive N ⟨e, past⟩) (hacts : Acts N env (carefulProviso N) e e')
    (hα : e.trace ++ α <+: e'.trace) (hsettled : Settled α) :
    Vows (lastSaved e.cs α) ((Life.mk e past).history ++ α) := by
  induction hacts generalizing α with
  | refl =>
    have hnil : α = [] := by
      have hlen := hα.length_le
      rw [List.length_append] at hlen
      exact List.length_eq_zero_iff.mp (by omega)
    subst hnil
    rw [List.append_nil]
    exact hl.vows
  | @tail e₁ e₂ hacts hact ih =>
    obtain ⟨γ, hγ⟩ := Acts.logged hacts
    obtain ⟨δ, hδ, htrail⟩ := hact.trail
    have hl₁ := hl.acts hsaves hacts
    rw [hδ.trace, hγ.trace, List.append_assoc, List.prefix_append_right_inj] at hα
    rcases prefix_append_cases hα with hα | ⟨α', rfl, hα'⟩
    · refine ih ?_ hsettled
      rw [hγ.trace, List.prefix_append_right_inj]
      exact hα
    · have hcs : lastSaved e.cs γ = e₁.cs := by
        rw [← show e.store.loadConsensusState N.thread.id = e.cs from hl.saved,
          ← loadConsensusState_replay, ← hγ.store]
        exact hl₁.saved
      have hhist : (Life.mk e past).history ++ (γ ++ α') = (Life.mk e₁ past).history ++ α' := by
        simp only [Life.history, hγ.trace, List.append_assoc]
      rw [lastSaved_append, hcs, hhist]
      exact htrail.stop hsaves hl₁.vows hl₁.sane.proposal id hl₁.fresh hα' hsettled.of_append

end Alive

theorem Careful.acts {ev : Event} (h : Careful N e env ev) :
    Acts N env (carefulProviso N) e (final (step N env e ev)) :=
  step_acts ev (fun msg hmsg prop block hp hok => h.proposal msg prop block hmsg hp hok) h.round

variable {l : Life}

theorem Alive.lifeStep {l' : Life} (hl : Alive N l)
    (hstep : Life.Step N (Careful N) (CleanStop N) l l') : Alive N l' := by
  cases hstep with
  | call hcall hok =>
    have hacts := hcall.acts
    rw [hok] at hacts
    exact hl.acts hcall.saves hacts
  | @stop env ev δ hcall hstop hδ =>
    have hv := hl.stop hcall.saves hcall.acts hδ hstop.settled
    have hcs : (l.rebuilt N δ).e.cs = lastSaved l.e.cs δ := by
      change (replay N.thread.id l.e.store δ).loadConsensusState N.thread.id = _
      rw [loadConsensusState_replay, hl.saved]
    have hhist : (l.rebuilt N δ).history = l.history ++ δ := List.append_nil _
    refine ⟨⟨?_, ?_, ?_⟩, ?_, rfl, ?_⟩
    · rw [hcs]
      exact Int32.le_iff_toInt_le.mp hv.round_nonneg
    · rintro b ⟨⟩
    · exact fun v hmem => absurd hmem List.not_mem_nil
    · rw [hcs, hhist]
      exact hv
    · intro _
      rw [hhist]
      exact hstop.proposal

theorem alive_first {s : Store} (hs : s.consensusState.lookup N.thread.id = none) : Alive N (.first N s) := by
  have hcs : (Life.first N s).e.cs = .start 1 := by
    change s.loadConsensusState N.thread.id = _
    rw [Store.loadConsensusState, hs]
  have hneg : (-1 : Int32) ≤ 0 := by decide
  refine ⟨⟨?_, ?_, ?_⟩, ?_, rfl, ?_⟩
  · rw [hcs]
    exact le_rfl
  · rintro b ⟨⟩
  · exact fun v hmem => absurd hmem List.not_mem_nil
  · rw [hcs]
    refine ⟨?_, ?_, ?_, ?_, ?_, hneg, Int32.le_refl _⟩
    · exact fun v hmem => absurd hmem List.not_mem_nil
    · exact fun v hmem => absurd hmem List.not_mem_nil
    · exact fun p hmem => absurd hmem List.not_mem_nil
    · exact fun p hmem => absurd hmem List.not_mem_nil
    · exact fun i v s hs => absurd (List.suffix_nil.mp hs) (List.cons_ne_nil _ _)
  · exact fun _ p hmem => absurd hmem List.not_mem_nil

/-- **The promises are kept along every life** whose calls are careful and whose stops are clean. -/
theorem Alive.run {s : Store} (hs : s.consensusState.lookup N.thread.id = none)
    (hrun : Relation.ReflTransGen (Life.Step N (Careful N) (CleanStop N)) (.first N s) l) :
    Alive N l := by
  induction hrun with
  | refl => exact alive_first hs
  | tail _ hstep ih => exact ih.lifeStep hstep

/-- A prefix of what a life will have done has the votes and proposals of the whole among its
own. -/
theorem Alive.upTo (hl : Alive N l) {ev : Event} (hcall : Careful N l.e env ev)
    (hδ : l.e.trace ++ δ <+: (final (step N env l.e ev)).trace) :
    ∃ cs t, Vows cs t ∧ sentVotes (l.history ++ δ) ⊆ sentVotes t ∧
      sentProposals (l.history ++ δ) ⊆ sentProposals t := by
  have hv := (hl.acts hcall.saves hcall.acts).vows
  have hlater : l.history ++ δ <+: (Life.mk (final (step N env l.e ev)) l.past).history := by
    simp only [Life.history, List.append_assoc, List.prefix_append_right_inj]
    exact hδ
  exact ⟨_, _, hv, (hlater.filterMap _).subset, (hlater.filterMap _).subset⟩

/-- **Votes, proposals and locks across stops.**  At every point of every life whose calls are
careful and whose stops are clean, no two votes for one height, round and type differ in their hash,
no two proposals for one height and round differ in their block, and, once the state is saved after a
vote, a precommit for a block at the height of the saved state is covered by the saved lock unless a
lock at this height has been given up since. -/
theorem restart_keeps_vows {s : Store} (hs : s.consensusState.lookup N.thread.id = none) {l : Life}
    (hrun : Relation.ReflTransGen (Life.Step N (Careful N) (CleanStop N)) (.first N s) l)
    {ev : Event} (hcall : Careful N l.e env ev)
    (hδ : l.e.trace ++ δ <+: (final (step N env l.e ev)).trace) :
    (∀ v ∈ sentVotes (l.history ++ δ), ∀ v' ∈ sentVotes (l.history ++ δ), v.height = v'.height →
      v.round = v'.round → v.type = v'.type → v.blockHash = v'.blockHash) ∧
    (∀ p ∈ sentProposals (l.history ++ δ), ∀ p' ∈ sentProposals (l.history ++ δ),
      p.height = p'.height → p.round = p'.round → p.block = p'.block) ∧
    (Settled δ → ∀ i v t, .broadcast ⟨i, .vote v⟩ :: t <:+ l.history ++ δ → v.type = .precommit →
      v.blockHash ≠ "" →
        v.height = ((replay N.thread.id l.e.store δ).loadConsensusState N.thread.id).height →
          v.round ≤ ((replay N.thread.id l.e.store δ).loadConsensusState N.thread.id).lockedRound ∨
            ∃ r, .unlock v.height r ∈ t) := by
  have hl := Alive.run hs hrun
  obtain ⟨cs, t, hv, hvotes, hprops⟩ := hl.upTo hcall hδ
  refine ⟨?_, ?_, ?_⟩
  · intro v hmem v' hmem' hh hr hty
    rw [hv.votedOnce v (hvotes hmem) v' (hvotes hmem') hh hr hty]
  · intro p hmem p' hmem' hh hr
    rw [hv.proposedOnce p (hprops hmem) p' (hprops hmem') hh hr]
  · intro hsettled
    rw [loadConsensusState_replay, hl.saved]
    exact (hl.stop hcall.saves hcall.acts hδ hsettled).kept

theorem exists_broadcast_of_mem_sentVotes {t : List Effect} {v : Vote} (h : v ∈ sentVotes t) :
    ∃ i, .broadcast ⟨i, .vote v⟩ ∈ t := by
  obtain ⟨a, ha, hav⟩ := List.mem_filterMap.mp h
  split at hav
  case h_1 i v' => exact ⟨i, Option.some.inj hav ▸ ha⟩
  case h_2 => cases hav

/-! ## Lives played out -/

/-- A line of the script of a life. -/
structure Turn where
  time : Nat
  ev : Event
  /-- Whether the database refuses to save a consensus state. -/
  refuses : Bool := false
  /-- The number of effects after which the process stops, if it does. -/
  stop : Option Nat := none

/-- The environment of a turn. -/
def Turn.environment (t : Turn) : Env :=
  { clock t.time with fails := fun w => t.refuses && w matches .saveConsensusState _ }

/-- The first `n` effects of a call. -/
def effects (N : Node) (e : Backend) (env : Env) (ev : Event) (n : Nat) : List Effect :=
  ((final (step N env e ev)).trace.drop e.trace.length).take n

theorem trace_append_effects (N : Node) (e : Backend) (env : Env) (ev : Event) (n : Nat) :
    e.trace ++ effects N e env ev n <+: (final (step N env e ev)).trace := by
  let P : Proviso := ⟨fun _ _ => True, fun _ => True⟩
  have hacts : Acts N env P e (final (step N env e ev)) :=
    step_acts ev (fun _ _ => trivial) fun _ _ _ => trivial
  obtain ⟨γ, hγ⟩ := Acts.logged hacts
  rw [effects, hγ.trace, List.drop_left, List.prefix_append_right_inj]
  exact List.take_prefix n γ

/-- Play a script, as long as every line passes `check`. -/
def Life.play (N : Node) (check : Life → Turn → Bool) : Life → List Turn → Option Life
  | l, [] => some l
  | l, t :: turns =>
    if check l t then
      match t.stop with
      | some n => play N check (l.rebuilt N (effects N l.e t.environment t.ev n)) turns
      | none =>
        match step N t.environment l.e t.ev with
        | .ok e' => play N check ⟨e', l.past⟩ turns
        | .error _ => none
    else none

variable {turns : List Turn}

/-- **What a script plays is a life.** -/
theorem Life.play_run {check : Life → Turn → Bool} {call : Backend → Env → Event → Prop}
    {stop : Life → List Effect → Prop}
    (hcall : ∀ l t, check l t = true → call l.e t.environment t.ev)
    (hstop : ∀ l t n, check l t = true → t.stop = some n → stop l (effects N l.e t.environment t.ev n))
    {l' : Life} (h : Life.play N check l turns = some l') :
    Relation.ReflTransGen (Life.Step N call stop) l l' := by
  induction turns generalizing l with
  | nil =>
    obtain rfl := Option.some.inj h
    exact .refl
  | cons t turns ih =>
    obtain ⟨hcheck, h⟩ := Option.ite_none_right_eq_some.mp h
    split at h
    case h_1 n hn =>
      refine .head (.stop (hcall l t hcheck) (hstop l t n hcheck hn) ?_) (ih h)
      exact trace_append_effects N l.e t.environment t.ev n
    case h_2 =>
      split at h
      case h_1 e' hstep => exact .head (.call (hcall l t hcheck) hstep) (ih h)
      case h_2 => cases h

/-- A life of any calls and any stops. -/
def Life.Reaches (N : Node) : Life → Life → Prop :=
  Relation.ReflTransGen (Life.Step N (fun _ _ _ => True) fun _ _ => True)

theorem Life.play_reaches {l' : Life}
    (h : Life.play N (fun _ _ => true) l turns = some l') : Life.Reaches N l l' :=
  Life.play_run (fun _ _ _ => trivial) (fun _ _ _ _ _ => trivial) h

/-- `Careful` and `CleanStop`, as a check; a stop is clean if nothing has been sent in the call and
nothing been proposed before. -/
def prudent (N : Node) (l : Life) (t : Turn) : Bool :=
  t.refuses = false &&
  (match t.ev with
    | .inbound ⟨_, .proposal prop⟩ => prop.block.all fun block => block.height = prop.height
    | .tick => l.e.cs.round ≠ Int32.maxValue
    | _ => true) &&
  t.stop.all fun n =>
    let δ := effects N l.e t.environment t.ev n
    sentVotes δ = [] ∧ sentProposals (l.history ++ δ) = []

theorem careful_of_prudent {t : Turn} (h : prudent N l t = true) :
    Careful N l.e t.environment t.ev := by
  simp only [prudent, Bool.and_eq_true] at h
  obtain ⟨⟨hrefuses, hev⟩, -⟩ := h
  refine ⟨?_, ?_, ?_⟩
  · rintro ⟨i, payload⟩ prop block hmsg hp hok
    obtain rfl : payload = .proposal prop := hp
    rw [hmsg] at hev
    dsimp only at hev
    rw [hok.carries] at hev
    exact of_decide_eq_true hev
  · intro hmsg _ _
    rw [hmsg] at hev
    exact of_decide_eq_true hev
  · intro cs
    change (t.refuses && true) = false
    rw [of_decide_eq_true hrefuses]
    rfl

theorem cleanStop_of_prudent {t : Turn} {n : Nat} (h : prudent N l t = true)
    (hn : t.stop = some n) : CleanStop N l (effects N l.e t.environment t.ev n) := by
  simp only [prudent, Bool.and_eq_true, hn] at h
  obtain ⟨hvotes, hprops⟩ := of_decide_eq_true h.2
  refine ⟨settled_of_sentVotes hvotes, ?_⟩
  rw [hprops]
  exact fun p hp => absurd hp List.not_mem_nil

namespace Quartet

/-- A proposal for height 1, signed by the replica with number `i`. -/
def peerProposal (i : Nat) (did : String) (round polRound : Int32) (block : ThreadBlock) : Event :=
  .inbound ⟨"t", .proposal {
    threadId := "t", height := 1, round, polRound, block := some block, proposerDid := did,
    signature := hexEncode (checksum.sign (key i) (proposalSigData "t" 1 round block.blockHash)) }⟩

/-- A vote at height 1, signed by the replica with number `i`. -/
def peerVote (i : Nat) (did : String) (round : Int32) (type : VoteType) (H : String) : Event :=
  .inbound ⟨"t", .vote {
    threadId := "t", height := 1, round, type, blockHash := H, voterDid := did,
    signature := hexEncode (checksum.sign (key i) (voteSigData "t" 1 round type H)) }⟩

/-- `did1` prevotes block `a` of round 0, sees a polka for it, locks on it and precommits it. -/
def lock : List Turn :=
  [⟨0, .pump, false, none⟩,
   ⟨1, peerProposal 2 did2 0 (-1) (block 0 "aaaaaaaa"), false, none⟩,
   ⟨2, peerVote 2 did2 0 .prevote "aaaaaaaa", false, none⟩,
   ⟨2, peerVote 3 did3 0 .prevote "aaaaaaaa", false, none⟩]

/-- The process stops when it has entered round 1. -/
def lockAndStop : List Turn := lock ++ [⟨600, .tick, false, some 1⟩]

/-- In round 2 the lock is given up on a proposal that announces a polka of round 1. -/
def giveUp : List Turn :=
  lock ++ [⟨600, .tick, false, none⟩, ⟨2000, .tick, false, none⟩, ⟨3000, .tick, false, none⟩,
    ⟨4000, .tick, false, none⟩, ⟨4001, peerProposal 4 did4 2 1 (block 1 "bbbbbbbb"), false, none⟩]

/-- The process stops when the prevote is out and the state not saved; then round 0 times out. -/
def voteAndStop : List Turn :=
  [⟨0, .pump, false, none⟩,
   ⟨1, peerProposal 2 did2 0 (-1) (block 0 "aaaaaaaa"), false, some 2⟩,
   ⟨2, .pump, false, none⟩, ⟨2000, .tick, false, none⟩]

/-- The saving of the state fails; the process stops later. -/
def unsavedAndStop : List Turn :=
  [⟨0, .pump, false, none⟩,
   ⟨1, peerProposal 2 did2 0 (-1) (block 0 "aaaaaaaa"), true, none⟩, ⟨2, .tick, false, some 0⟩,
   ⟨2, .pump, false, none⟩, ⟨2000, .tick, false, none⟩]

/-- A block for height 0 is committed at height 1, and the replica is at height 1 again. -/
def sameHeight : List Turn :=
  let b := { block 0 "aaaaaaaa" with height := 0 }
  [⟨0, .pump, false, none⟩, ⟨1, peerProposal 2 did2 0 (-1) b, false, none⟩,
   ⟨2, peerVote 2 did2 0 .prevote "aaaaaaaa", false, none⟩,
   ⟨2, peerVote 3 did3 0 .prevote "aaaaaaaa", false, none⟩,
   ⟨3, peerVote 2 did2 0 .precommit "aaaaaaaa", false, none⟩,
   ⟨3, peerVote 3 did3 0 .precommit "aaaaaaaa", false, none⟩, ⟨2000, .tick, false, none⟩]

/-- `did2` proposes what is in its queue, stops and proposes again, with an empty queue. -/
def proposeAndStop : List Turn :=
  [⟨0, .enqueue ⟨did1, [1, 2], "text", "", 5, 0, 0, [], 0, 0, [], []⟩, false, none⟩,
   ⟨0, .pump, false, none⟩, ⟨1, .tick, false, some 0⟩, ⟨2, .pump, false, none⟩]

end Quartet

open Quartet in
/-- A replica that stops after it has locked on a block. -/
theorem restart_keeps_vows_quartet : ∃ l v, Relation.ReflTransGen
      (Life.Step (allCorrect.node did1) (Careful (allCorrect.node did1))
        (CleanStop (allCorrect.node did1))) (.first (allCorrect.node did1) .empty) l ∧
    l.e.trace = [] ∧ v ∈ sentVotes l.past ∧ v.blockHash = "aaaaaaaa" ∧
      v.round ≤ (l.e.store.loadConsensusState "t").lockedRound := by
  have hexec : (Life.play (allCorrect.node did1) (prudent (allCorrect.node did1))
      (.first (allCorrect.node did1) .empty) lockAndStop).any (fun l =>
        l.e.trace = [] ∧ (l.e.store.loadConsensusState "t").height = 1 ∧
          (∀ a ∈ l.past, (a matches .unlock _ _) = false) ∧
            ∃ v ∈ sentVotes l.past, v.height = 1 ∧ v.type = .precommit ∧ v.blockHash = "aaaaaaaa") =
      true := by
    decide +kernel
  obtain ⟨l, hplay, hl⟩ := (Option.any_eq_true _ _).mp hexec
  obtain ⟨htrace, hheight, hunlock, v, hv, hh, hty, hH⟩ := of_decide_eq_true hl
  have hrun := Life.play_run (fun _ _ h => careful_of_prudent h)
    (fun _ _ _ h hn => cleanStop_of_prudent h hn) hplay
  refine ⟨l, v, hrun, htrace, hv, hH, ?_⟩
  obtain ⟨i, hmem⟩ := exists_broadcast_of_mem_sentVotes hv
  obtain ⟨s, t, hpast⟩ := List.append_of_mem hmem
  have hcall : Careful (allCorrect.node did1) l.e (clock 0) .pump :=
    ⟨fun _ _ _ h => (by cases h), fun h => (by cases h), fun _ => rfl⟩
  obtain ⟨-, -, hkept⟩ := restart_keeps_vows (δ := []) rfl hrun hcall
    (trace_append_effects _ _ _ _ 0)
  have hsuffix : .broadcast ⟨i, .vote v⟩ :: t <:+ l.history ++ [] := by
    rw [List.append_nil, Life.history, htrace, List.append_nil, hpast]
    exact List.suffix_append s _
  rcases hkept (settled_of_sentVotes rfl) i v t hsuffix hty (by rw [hH]; decide)
    (hh.trans hheight.symm) with h | ⟨r, hr⟩
  · exact h
  · have hmem' : .unlock v.height r ∈ l.past := by
      rw [hpast]
      exact List.mem_append_right _ (List.mem_cons_of_mem _ hr)
    exact absurd (hunlock _ hmem') (Bool.noConfusion)

/-- Two votes for one height, round and type that differ in their hash. -/
def VotesTwice (t : List Effect) : Prop :=
  ∃ v ∈ sentVotes t, ∃ v' ∈ sentVotes t, v.height = v'.height ∧ v.round = v'.round ∧
    v.type = v'.type ∧ v.blockHash ≠ v'.blockHash

/-- Two proposals for one height and round that differ in the hash of their block. -/
def ProposesTwice (t : List Effect) : Prop :=
  ∃ p ∈ sentProposals t, ∃ p' ∈ sentProposals t, p.height = p'.height ∧ p.round = p'.round ∧
    p.block.map ThreadBlock.blockHash ≠ p'.block.map ThreadBlock.blockHash

/-- A precommit for a block at the height of a state whose lock does not cover it. -/
def Uncovered (cs : ConsensusState) (t : List Effect) : Prop :=
  ∃ v ∈ sentVotes t, v.type = .precommit ∧ v.blockHash ≠ "" ∧ v.height = cs.height ∧
    cs.lockedRound < v.round

instance (t : List Effect) : Decidable (VotesTwice t) := by
  unfold VotesTwice
  infer_instance

instance (t : List Effect) : Decidable (ProposesTwice t) := by
  unfold ProposesTwice
  infer_instance

instance (cs : ConsensusState) (t : List Effect) : Decidable (Uncovered cs t) := by
  unfold Uncovered
  infer_instance

theorem Life.play_outcome {Q : Life → Bool}
    (h : (Life.play N (fun _ _ => true) l turns).any Q = true) :
    ∃ l', Life.Reaches N l l' ∧ Q l' = true := by
  obtain ⟨l', hplay, hQ⟩ := (Option.any_eq_true _ _).mp h
  exact ⟨l', Life.play_reaches hplay, hQ⟩

open Quartet in
/-- **The promises are broken** if a process stops between the broadcast of a vote and the saving of
the state, if the state cannot be saved or if a block is not of the height of its proposal; if it
stops in a round in which it has proposed; and, without any stop, when a lock is given up. -/
theorem restart_breaks_vows :
    (∀ turns ∈ [voteAndStop, unsavedAndStop, sameHeight], ∃ l,
      Life.play (allCorrect.node did1) (fun _ _ => true) (.first (allCorrect.node did1) .empty) turns =
        some l ∧
      Life.Reaches (allCorrect.node did1) (.first (allCorrect.node did1) .empty) l ∧
      VotesTwice l.history) ∧
    (∃ l, Life.Reaches (allCorrect.node did2) (.first (allCorrect.node did2) .empty) l ∧
      ProposesTwice l.history) ∧
    ∃ l, Life.Reaches (allCorrect.node did1) (.first (allCorrect.node did1) .empty) l ∧
      l.past = [] ∧ Uncovered (l.e.store.loadConsensusState "t") l.history := by
  refine ⟨?_, ?_, ?_⟩
  · have hexec : ∀ turns ∈ [voteAndStop, unsavedAndStop, sameHeight],
        (Life.play (allCorrect.node did1) (fun _ _ => true) (.first (allCorrect.node did1) .empty)
          turns).any (fun l => VotesTwice l.history) = true := by
      decide +kernel
    intro turns hmem
    obtain ⟨l, hplay, hvotes⟩ := (Option.any_eq_true _ _).mp (hexec turns hmem)
    exact ⟨l, hplay, Life.play_reaches hplay, of_decide_eq_true hvotes⟩
  · have hexec : (Life.play (allCorrect.node did2) (fun _ _ => true)
        (.first (allCorrect.node did2) .empty) proposeAndStop).any
          (fun l => ProposesTwice l.history) = true := by
      decide +kernel
    obtain ⟨l, hrun, hprops⟩ := Life.play_outcome hexec
    exact ⟨l, hrun, of_decide_eq_true hprops⟩
  · have hexec : (Life.play (allCorrect.node did1) (fun _ _ => true)
        (.first (allCorrect.node did1) .empty) giveUp).any (fun l =>
          l.past = [] ∧ Uncovered (l.e.store.loadConsensusState "t") l.history) = true := by
      decide +kernel
    obtain ⟨l, hrun, hl⟩ := Life.play_outcome hexec
    exact ⟨l, hrun, of_decide_eq_true hl⟩

end MoltMesh.Tendermint

import Mathlib.Logic.Relation
import MoltMesh.Raft.Claims

/-!
# Claims in flight

A replica claims pending rows and proposes them.  A proposal that is taken by a follower's
Raft node is a message to the leader, and the claim is given up only if the node refuses it
at once.  `Web` is a group of replicas with the logs and the unsent messages of their Raft
nodes and the messages between them.

As long as nothing that carries a proposal is dropped while a row of it is claimed, every
claimed row is in a proposal that is under way (`claimed_in_flight`).  A message to the
leader that is lost leaves its rows claimed (`Trio.claim_stranded`).
-/

namespace MoltMesh.Raft

open MoltMesh.Lib Pb Raftpb

variable {N : Node} {env : Env} {e e' : Backend} {T : String} {s : Store} {a : Effect}
  {δ δ' : List Effect} {m : Message} {rd : Ready} {ev : Event}

/-! ## What a call does to claims -/

theorem Effect.ledger_apply (hs : s.Ledger) (ha : a.isPlain = true) : (a.apply T s).Ledger := by
  cases a with
  | write w =>
    cases w with
    | appendBlock ids b =>
      rcases apply_appendBlock T s ids b with hsame | ⟨blocks, -, heq⟩
      · rw [hsame]
        exact hs
      · rw [heq]
        exact Store.Ledger.ackPending (s := { s with blocks }) ⟨hs.id_le, hs.claimed⟩ ids
    | enqueueEntry entry now => exact hs.enqueueEntry T entry now
    | claimPendingEntries ids => cases ha
    | releasePendingClaims => cases ha
    | releasePendingClaimIDs ids => cases ha
    | _ => exact ⟨hs.id_le, hs.claimed⟩
  | _ => exact hs

theorem Effect.mem_claims_of_apply (ha : a.isPlain = true) {c : Int} (hc : c ∈ (a.apply T s).claims.rows) :
    c ∈ s.claims.rows := by
  cases a with
  | write w =>
    cases w with
    | appendBlock ids b =>
      rcases apply_appendBlock T s ids b with hsame | ⟨blocks, -, heq⟩
      · rwa [hsame] at hc
      · rw [heq] at hc
        exact (Store.mem_claims_ackPending.mp hc).1
    | claimPendingEntries ids => cases ha
    | releasePendingClaims => cases ha
    | releasePendingClaimIDs ids => cases ha
    | _ => exact hc
  | _ => exact hc

/-- A row is pending and claimed. -/
def Reserved (s : Store) (r : PendingRow) : Prop := r ∈ s.pending.rows ∧ r.id ∈ s.claims.rows

/-- Effects that have nothing to do with claims reserve nothing. -/
theorem replay_plain (hs : s.Ledger) (hδ : ∀ a ∈ δ, a.isPlain = true) : (replay T s δ).Ledger ∧
    ∀ r, Reserved (replay T s δ) r → Reserved s r := by
  induction δ generalizing s with
  | nil => exact ⟨hs, fun _ h => h⟩
  | cons a δ ih =>
    have ha := hδ a List.mem_cons_self
    obtain ⟨hledger, hback⟩ := ih (a.ledger_apply (T := T) hs ha) fun b hb => hδ b (List.mem_cons_of_mem a hb)
    refine ⟨hledger, fun r hr => ?_⟩
    obtain ⟨hrow, hclaim⟩ := hback r hr
    have hold := a.mem_claims_of_apply ha hclaim
    refine ⟨?_, hold⟩
    -- The id of a new row is not claimed.
    rcases mem_pending_of_apply hrow with hrow | ⟨hnew, -⟩
    · exact hrow
    · obtain ⟨r', hr', hid⟩ := hs.claimed r.id hold
      have hle := hs.id_le r' hr'
      omega

/-- What is proposed is claimed, and claims are given up if the Raft node refuses, unless that fails. -/
theorem ProposeTrail.reserved (h : ProposeTrail N e δ) (hs : e.store.Ledger) :
    (replay e.thread.id e.store δ).Ledger ∧
    ∀ r, Reserved (replay e.thread.id e.store δ) r → Reserved e.store r ∨
      (∃ p, Effect.propose p ∈ δ ∧ r.id ∈ p.pendingIDs ∧ p.ownerDID = N.id.did) ∨
      ∃ ids, Effect.failed (.releasePendingClaimIDs ids) ∈ δ := by
  cases h with
  | idle => exact ⟨hs, fun _ h => .inl h⟩
  | failed w => exact ⟨hs, fun _ h => .inl h⟩
  | @released ids entries s' a hclaim ha =>
    have hledger := hs.claimPendingEntries e.thread.id raftMaxEntriesPerMsg
    rw [hclaim] at hledger
    rw [Store.claimPendingEntries_eq] at hclaim
    obtain ⟨rfl, hrest⟩ := Prod.mk.inj hclaim
    obtain ⟨-, rfl⟩ := Prod.mk.inj hrest
    rcases ha with rfl | rfl
    · refine ⟨hledger.releasePendingClaimIDs _, fun r hr => .inl ?_⟩
      obtain ⟨hrow, hc⟩ := hr
      obtain ⟨hc, hfree⟩ := Store.mem_claims_releasePendingClaimIDs.mp hc
      refine ⟨?_, (Store.mem_claims_insert.mp hc).resolve_right hfree⟩
      exact (congrArg (r ∈ ·.rows) Store.pending_releasePendingClaimIDs.1).mp hrow
    · exact ⟨hledger, fun r _ => .inr (.inr ⟨_, List.mem_cons_of_mem _ (List.mem_singleton_self _)⟩)⟩
  | @proposed ids entries s' hclaim =>
    have hledger := hs.claimPendingEntries e.thread.id raftMaxEntriesPerMsg
    rw [hclaim] at hledger
    rw [Store.claimPendingEntries_eq] at hclaim
    obtain ⟨rfl, hrest⟩ := Prod.mk.inj hclaim
    obtain ⟨rfl, rfl⟩ := Prod.mk.inj hrest
    refine ⟨hledger, fun r hr => ?_⟩
    obtain ⟨hrow, hc⟩ := hr
    rcases Store.mem_claims_insert.mp hc with hc | hc
    · exact .inl ⟨hrow, hc⟩
    · exact .inr (.inl ⟨_, List.mem_cons_of_mem _ (List.mem_singleton_self _), hc, rfl⟩)

/-- **What a call reserves** is in a proposal that it has made. -/
theorem step_reserved (N : Node) (env : Env) (ev : Event) (hs : e.store.Ledger) :
    ∃ δ, Logged e (final (step N env e ev)) δ ∧ (final (step N env e ev)).store.Ledger ∧
      ∀ r, Reserved (final (step N env e ev)).store r → Reserved e.store r ∨
        (∃ p, Effect.propose p ∈ δ ∧ r.id ∈ p.pendingIDs ∧ p.ownerDID = N.id.did) ∨
        ∃ ids, Effect.failed (.releasePendingClaimIDs ids) ∈ δ := by
  obtain ⟨e₁, δ, δ', hlog, hplain, hlog', hpropose, -⟩ := (step_trail N env e ev).plain
  obtain ⟨hledger, hback⟩ := replay_plain (T := e.thread.id) hs hplain
  rw [← hlog.store] at hledger hback
  obtain ⟨hledger', hback'⟩ := hpropose.reserved hledger
  rw [← hlog'.store] at hledger' hback'
  refine ⟨δ ++ δ', hlog.trans hlog', hledger', fun r hr => ?_⟩
  rcases hback' r hr with h | ⟨p, hp, hmem⟩ | ⟨ids, hids⟩
  · exact .inl (hback r h)
  · exact .inr (.inl ⟨p, List.mem_append_right _ hp, hmem⟩)
  · exact .inr (.inr ⟨ids, List.mem_append_right _ hids⟩)

/-! ## What a call does to messages -/

/-- The addressee of a message is known. -/
def Backend.Knows (e : Backend) (m : Message) : Prop :=
  ((e.didByID.lookup m.toID).map Prod.snd).getD "" ≠ "" ∨ m.toID = 0

theorem sendRaftMsg_of_knows (h : e.Knows m) :
    sendRaftMsg N e m = note e (.broadcast (.raft N.id.did m)) := by
  refine if_neg ?_
  rintro ⟨hdid, hid⟩
  exact h.elim (fun h => h hdid) hid

theorem sendAll_mem {ms : List Message} (hm : m ∈ ms) (hknows : e.Knows m) :
    ∃ δ, Logged e (ms.foldl (sendRaftMsg N) e) δ ∧ Effect.broadcast (.raft N.id.did m) ∈ δ := by
  induction ms generalizing e with
  | nil => exact absurd hm List.not_mem_nil
  | cons m' ms ih =>
    have hmem : SameMemory e ([m'].foldl (sendRaftMsg N) e) := sameMemory_sendAll N e [m']
    obtain ⟨δ, hδ⟩ := sendRaftMsg_sides N e m'
    rcases List.mem_cons.mp hm with rfl | hm
    · obtain ⟨δ', hδ'⟩ := sendAll_sides N (sendRaftMsg N e m) ms
      have hlog : Logged e (sendRaftMsg N e m) [.broadcast (.raft N.id.did m)] := by
        rw [sendRaftMsg_of_knows hknows]
        exact logged_note rfl
      exact ⟨_, hlog.trans hδ'.toLogged, List.mem_cons_self⟩
    · have hknows' : (sendRaftMsg N e m').Knows m := by
        unfold Backend.Knows
        rw [show (sendRaftMsg N e m').didByID = e.didByID from hmem.didByID]
        exact hknows
      obtain ⟨δ', hlog', hin⟩ := ih hm hknows'
      exact ⟨_, hδ.toLogged.trans hlog', List.mem_append_right _ hin⟩

theorem bind_eq_ok {α β : Type} {ε : Type} {x : Except ε α} {f : α → Except ε β} {b : β}
    (h : (x >>= f) = .ok b) : ∃ a, x = .ok a ∧ f a = .ok b := by
  cases x with
  | error err => cases h
  | ok a => exact ⟨a, rfl, h⟩

theorem saveReady_eq_ok (h : saveReady env e rd = .ok e') :
    (∃ δ, Logged e e' δ) ∧ e'.didByID = e.didByID := by
  unfold saveReady at h
  dsimp only at h
  split at h
  · cases h
  · rename_i href
    cases h
    exact ⟨⟨_, logged_write (Bool.eq_false_of_not_eq_true href)⟩, (sameMemory_write env e _).didByID⟩

theorem installSnapshot_eq_ok {snap : Snapshot} (h : installSnapshot env e snap = .ok e') :
    (∃ δ, Logged e e' δ) ∧ e'.didByID = e.didByID := by
  unfold installSnapshot at h
  split at h
  · cases h
    exact ⟨⟨[], .refl e⟩, rfl⟩
  dsimp only at h
  split at h
  · cases h
  · rename_i href
    have hlog := logged_write (Bool.eq_false_of_not_eq_true href)
    cases h
    exact ⟨⟨_, hlog.trace, hlog.store, hlog.threadId⟩, (sameMemory_write env e _).didByID⟩

/-- A batch that is handled sends its messages. -/
theorem handleReady_sends (h : handleReady N env e rd = .ok e')
    (hm : m ∈ rd.messages) (hknows : e.Knows m) :
    ∃ δ, Logged e e' δ ∧ Effect.broadcast (.raft N.id.did m) ∈ δ := by
  obtain ⟨e₁, h₁, h⟩ := bind_eq_ok h
  obtain ⟨e₂, h₂, h⟩ := bind_eq_ok h
  obtain ⟨e₄, h₄, h⟩ := bind_eq_ok h
  obtain ⟨⟨δ₁, hlog₁⟩, hdids₁⟩ := saveReady_eq_ok h₁
  obtain ⟨⟨δ₂, hlog₂⟩, hdids₂⟩ := installSnapshot_eq_ok h₂
  obtain ⟨δ₃, hlog₃, -, -, -, -, -, -, hdids₃⟩ := persistHardState_sides env e₂ rd.hardState
  have hstorage : Logged (persistHardState env e₂ rd.hardState) e₄ [] ∧
      e₄.didByID = (persistHardState env e₂ rd.hardState).didByID := by
    unfold appendEntries at h₄
    split at h₄
    · cases h₄
    · cases h₄
      exact ⟨⟨(List.append_nil _).symm, rfl, rfl⟩, rfl⟩
  have hknows' : e₄.Knows m := by
    unfold Backend.Knows
    rw [hstorage.2, hdids₃, hdids₂, hdids₁]
    exact hknows
  obtain ⟨δ₅, hlog₅, hin⟩ := sendAll_mem (N := N) hm hknows'
  obtain ⟨δ₆, hlog₆⟩ := applyAll_logged N env (rd.messages.foldl (sendRaftMsg N) e₄) rd.committedEntries
  cases h
  refine ⟨_, ((((hlog₁.trans hlog₂).trans hlog₃).trans hstorage.1).trans hlog₅).trans hlog₆, ?_⟩
  exact List.mem_append_left _ (List.mem_append_right _ hin)

/-! ## The group -/

universe u

/-- A group of replicas with their Raft nodes, and the messages between them. -/
structure Web (ι : Type u) where
  replica : ι → Backend
  /-- The log of a Raft node, with what has been compacted. -/
  log : ι → List Entry
  /-- What a Raft node has to send and has not handed over. -/
  queue : ι → List Message
  /-- What has been sent and neither received nor lost. -/
  wire : List Message

variable {ι : Type u}

/-- A message carries a proposal. -/
def Carries (p : RaftProposal) (m : Message) : Prop := ∃ entry ∈ m.entries, entry.data = .proposal p

variable {i : ι}

namespace Web

variable (G : ι → Node) (w w' : Web ι)

/-- A proposal is in a log, or in a message that is not lost. -/
inductive InFlight (p : RaftProposal) : Prop
  | log {i : ι} {entry : Entry} (hentry : entry ∈ w.log i) (hp : entry.data = .proposal p)
  | queue {i : ι} {m : Message} (hm : m ∈ w.queue i) (hp : Carries p m)
  /-- The message is in a batch that is to be tried again. -/
  | batch {i : ι} {rd : Ready} {m : Message} (hrd : (w.replica i).pendingReady = some rd)
    (hm : m ∈ rd.messages) (hp : Carries p m)
  | wire {m : Message} (hm : m ∈ w.wire) (hp : Carries p m)

/-- A claimed row of a replica is in a proposal of the replica. -/
def Holds (i : ι) (r : PendingRow) (p : RaftProposal) : Prop :=
  Reserved (w.replica i).store r ∧ r.id ∈ p.pendingIDs ∧ p.ownerDID = (G i).id.did

/-- Every claimed row of the thread is in a proposal that is under way. -/
def ClaimsInFlight (T : String) : Prop :=
  ∀ i r, Reserved (w.replica i).store r → r.threadId = T → ∃ p, w.Holds G i r p ∧ w.InFlight p

/-- Some row of the proposal is claimed. -/
def Live (p : RaftProposal) : Prop := ∃ i r, w.Holds G i r p

/-- What happens in the group: a replica is called, or a message is lost. -/
inductive Move (ι : Type u)
  | call (i : ι) (env : Env) (ev : Event)
  | lose (m : Message)

/-- The effects of a call. -/
def effects (i : ι) : List Effect := (w'.replica i).trace.drop (w.replica i).trace.length

/-- The messages that effects hand to the network. -/
def sent (δ : List Effect) : List Message :=
  δ.filterMap fun | .broadcast (.raft _ m) => some m | _ => none

/-- The messages that are left when a replica is called: it takes in what is addressed to it. -/
def remaining (i : ι) : Event → List Message
  | .inbound (.raft _ m) => if m.toID = (w.replica i).selfID then w.wire.erase m else w.wire
  | _ => w.wire

/-- A replica is called.  Log and queue of its Raft node are the library's to choose, except that a
proposal it has taken is in one of them. -/
structure Turn (i : ι) (env : Env) (ev : Event) : Prop where
  ok : step (G i) env (w.replica i) ev = .ok (w'.replica i)
  others : ∀ j, j ≠ i → w'.replica j = w.replica j ∧ w'.log j = w.log j ∧ w'.queue j = w.queue j
  arrived : ∀ did m, ev = .inbound (.raft did m) → m ∈ w.wire
  handed : ∀ rd, ev = .ready rd → (w.replica i).pendingReady = none → rd.messages ⊆ w.queue i
  taken : ∀ p, Effect.propose p ∈ w.effects w' i →
    (∃ entry ∈ w'.log i, entry.data = .proposal p) ∨ ∃ m ∈ w'.queue i, Carries p m
  wire : w'.wire = w.remaining i ev ++ sent (w.effects w' i)

/-- One move of the group; there are no restarts, and no panics. -/
def Step : Move ι → Prop
  | .call i env ev => Turn G w w' i env ev
  | .lose m => m ∈ w.wire ∧ w' = { w with wire := w.wire.erase m }

/-- The condition on a call: nothing that carries a live proposal is dropped. -/
structure Keeps (i : ι) (ev : Event) : Prop where
  /-- The log of the Raft node is not cut where there is one. -/
  log : ∀ entry ∈ w.log i, ∀ p, w.Live G p → entry.data = .proposal p → entry ∈ w'.log i
  /-- The Raft node hands over what it has to send. -/
  queue : ∀ m ∈ w.queue i, ∀ p, w.Live G p → Carries p m → m ∈ w'.queue i ∨
    ∃ rd, ev = .ready rd ∧ (w.replica i).pendingReady = none ∧ m ∈ rd.messages
  /-- The addressees of a batch are known. -/
  known : ∀ rd, ev = .ready rd → ∀ m ∈ ((w.replica i).pendingReady.getD rd).messages, ∀ p, w.Live G p →
    Carries p m → (w.replica i).Knows m
  /-- The Raft node appends or forwards what it receives. -/
  received : ∀ did m, ev = .inbound (.raft did m) → m.toID = (w.replica i).selfID → ∀ p, w.Live G p →
    Carries p m → (∃ entry ∈ w'.log i, entry.data = .proposal p) ∨ ∃ m ∈ w'.queue i, Carries p m
  /-- Claims can be released. -/
  released : ∀ ids, Effect.failed (.releasePendingClaimIDs ids) ∉ w.effects w' i

/-- The condition on a move: no message with a live proposal is lost. -/
def Careful : Move ι → Prop
  | .call i _ ev => Keeps G w w' i ev
  | .lose m => ∀ p, w.Live G p → ¬Carries p m

/-- A move that meets the condition. -/
def CarefulStep : Prop := ∃ move, Step G w w' move ∧ Careful G w w' move

variable {G w w'}

theorem mem_sent {did : String} (h : Effect.broadcast (.raft did m) ∈ δ) : m ∈ sent δ :=
  List.mem_filterMap.mpr ⟨_, h, rfl⟩

theorem effects_eq (h : Logged (w.replica i) (w'.replica i) δ) : w.effects w' i = δ := by
  rw [effects, h.trace, List.drop_left]

theorem Turn.final (h : Turn G w w' i env ev) :
    Raft.final (step (G i) env (w.replica i) ev) = w'.replica i := by
  rw [h.ok]
  rfl

/-- A message of a batch is sent, or kept with the batch. -/
theorem Turn.inFlight_of_batch {p : RaftProposal}
    (h : Turn G w w' i env (.ready rd)) (hm : m ∈ ((w.replica i).pendingReady.getD rd).messages)
    (hp : Carries p m) (hknows : (w.replica i).Knows m) : w'.InFlight p := by
  have hok := h.ok
  change processReady (G i) env (w.replica i) ((w.replica i).pendingReady.getD rd) = _ at hok
  unfold processReady at hok
  split at hok
  · rename_i e₁ hready
    obtain ⟨δ, hlog, hin⟩ := handleReady_sends hready hm hknows
    have heq : { e₁ with pendingReady := none } = w'.replica i := Except.ok.inj hok
    have hlog' : Logged (w.replica i) (w'.replica i) δ := by
      rw [← heq]
      exact ⟨hlog.trace, hlog.store, hlog.threadId⟩
    refine .wire (m := m) ?_ hp
    rw [h.wire, effects_eq hlog']
    exact List.mem_append_right _ (mem_sent hin)
  · rename_i e₁ hready
    have heq : { e₁ with pendingReady := some _ } = w'.replica i := Except.ok.inj hok
    exact .batch (i := i) (by rw [← heq]) hm hp
  · cases hok

theorem Turn.mem_wire (h : Turn G w w' i env ev) (hm : m ∈ w.remaining i ev) : m ∈ w'.wire := by
  rw [h.wire]
  exact List.mem_append_left _ hm

/-- A live proposal stays under way. -/
theorem Turn.inFlight [DecidableEq ι] {p : RaftProposal}
    (h : Turn G w w' i env ev) (hkeep : Keeps G w w' i ev) (hlive : w.Live G p) (hp : w.InFlight p) :
    w'.InFlight p := by
  have hplaced (hplace : (∃ entry ∈ w'.log i, entry.data = .proposal p) ∨ ∃ m ∈ w'.queue i, Carries p m) :
      w'.InFlight p := by
    rcases hplace with ⟨entry, hentry, hdata⟩ | ⟨m, hm, hcarries⟩
    · exact .log hentry hdata
    · exact .queue hm hcarries
  cases hp with
  | @log j entry hentry hdata =>
    by_cases hj : j = i
    · subst hj
      exact .log (hkeep.log entry hentry p hlive hdata) hdata
    · exact .log (i := j) (by rw [(h.others j hj).2.1]; exact hentry) hdata
  | @queue j m hm hcarries =>
    by_cases hj : j = i
    · subst hj
      rcases hkeep.queue m hm p hlive hcarries with hm' | ⟨rd, rfl, hnone, hin⟩
      · exact .queue hm' hcarries
      · have hbatch : m ∈ ((w.replica j).pendingReady.getD rd).messages := by
          rw [hnone]
          exact hin
        exact h.inFlight_of_batch hbatch hcarries (hkeep.known rd rfl m hbatch p hlive hcarries)
    · exact .queue (i := j) (by rw [(h.others j hj).2.2]; exact hm) hcarries
  | @batch j rd m hrd hm hcarries =>
    by_cases hj : j = i
    · subst hj
      by_cases hready : ∃ rd', ev = .ready rd'
      · obtain ⟨rd', rfl⟩ := hready
        have hbatch : m ∈ ((w.replica j).pendingReady.getD rd').messages := by
          rw [hrd]
          exact hm
        exact h.inFlight_of_batch hbatch hcarries (hkeep.known rd' rfl m hbatch p hlive hcarries)
      · have hsame := pendingReady_of_step (not_exists.mp hready) h.ok
        rw [hrd] at hsame
        exact .batch hsame hm hcarries
    · exact .batch (i := j) (by rw [(h.others j hj).1]; exact hrd) hm hcarries
  | @wire m hm hcarries =>
    by_cases hkept : m ∈ w.remaining i ev
    · exact .wire (h.mem_wire hkept) hcarries
    · -- The message has been taken in.
      have htaken : ∃ did, ev = .inbound (.raft did m) ∧ m.toID = (w.replica i).selfID := by
        unfold remaining at hkept
        split at hkept
        · rename_i did m'
          split at hkept
          · rename_i hto
            by_cases heq : m = m'
            · subst heq
              exact ⟨did, rfl, hto⟩
            · exact absurd ((List.mem_erase_of_ne heq).mpr hm) hkept
          · exact absurd hm hkept
        · exact absurd hm hkept
      obtain ⟨did, hev, hto⟩ := htaken
      exact hplaced (hkeep.received did m hev hto p hlive hcarries)

/-- What the group keeps: the ledgers of the replicas are in order, and claims are in flight. -/
structure Sound (G : ι → Node) (T : String) (w : Web ι) : Prop where
  ledger : ∀ i, (w.replica i).store.Ledger
  claims : w.ClaimsInFlight G T

theorem Turn.sound [DecidableEq ι] (h : Turn G w w' i env ev)
    (hkeep : Keeps G w w' i ev) (hw : Sound G T w) : Sound G T w' := by
  obtain ⟨δ, hlog, hledger, hback⟩ := step_reserved (G i) env ev (hw.ledger i)
  rw [h.final] at hlog hledger hback
  have hold {j : ι} {r : PendingRow} (hr : Reserved (w.replica j).store r) (hthread : r.threadId = T)
      (hr' : Reserved (w'.replica j).store r) : ∃ p, w'.Holds G j r p ∧ w'.InFlight p := by
    obtain ⟨p, hholds, hp⟩ := hw.claims j r hr hthread
    exact ⟨p, ⟨hr', hholds.2⟩, h.inFlight hkeep ⟨j, r, hholds⟩ hp⟩
  constructor
  · intro j
    by_cases hj : j = i
    · exact hj ▸ hledger
    · rw [(h.others j hj).1]
      exact hw.ledger j
  · intro j r hr hthread
    by_cases hj : j = i
    · subst hj
      rcases hback r hr with hr₀ | ⟨p, hp, hid, howner⟩ | ⟨ids, hids⟩
      · exact hold hr₀ hthread hr
      · refine ⟨p, ⟨hr, hid, howner⟩, ?_⟩
        rcases h.taken p (by rw [effects_eq hlog]; exact hp) with ⟨entry, hentry, hdata⟩ | ⟨m, hm, hcarries⟩
        · exact .log hentry hdata
        · exact .queue hm hcarries
      · exact absurd (by rw [effects_eq hlog]; exact hids) (hkeep.released ids)
    · have hr₀ : Reserved (w.replica j).store r := by
        rw [← (h.others j hj).1]
        exact hr
      exact hold hr₀ hthread hr

theorem sound_lose (hcare : ∀ p, w.Live G p → ¬Carries p m) (hw : Sound G T w) :
    Sound G T { w with wire := w.wire.erase m } := by
  refine ⟨hw.ledger, fun i r hr hthread => ?_⟩
  obtain ⟨p, hholds, hp⟩ := hw.claims i r hr hthread
  refine ⟨p, hholds, ?_⟩
  cases hp with
  | log hentry hdata => exact .log hentry hdata
  | queue hm hcarries => exact .queue hm hcarries
  | batch hrd hm hcarries => exact .batch hrd hm hcarries
  | @wire m' hm hcarries =>
    have hne : m' ≠ m := by
      rintro rfl
      exact hcare p ⟨i, r, hholds⟩ hcarries
    exact .wire ((List.mem_erase_of_ne hne).mpr hm) hcarries

theorem CarefulStep.sound [DecidableEq ι] (h : CarefulStep G w w') (hw : Sound G T w) :
    Sound G T w' := by
  obtain ⟨move, hstep, hcare⟩ := h
  cases move with
  | call i env ev => exact Turn.sound hstep hcare hw
  | lose m =>
    obtain ⟨-, rfl⟩ := hstep
    exact sound_lose hcare hw

/-- The group at first: the ledgers are in order, and no row of the thread is claimed. -/
def Initial (T : String) (w : Web ι) : Prop :=
  ∀ i, (w.replica i).store.Ledger ∧ ∀ r, Reserved (w.replica i).store r → r.threadId ≠ T

/-- **Claimed means in flight**, in every state of a run in which nothing that carries a live proposal is
dropped. -/
theorem claimed_in_flight [DecidableEq ι] (G : ι → Node) (T : String) {w w' : Web ι} (hinit : w.Initial T)
    (hrun : Relation.ReflTransGen (CarefulStep G) w w') : w'.ClaimsInFlight G T := by
  have hsound : Sound G T w' := by
    induction hrun with
    | refl => exact ⟨fun i => (hinit i).1, fun i r hr hthread => absurd hthread ((hinit i).2 r hr)⟩
    | tail _ hstep ih => exact hstep.sound ih
  exact hsound.claims

end Web

namespace Trio

open Web

/-- The group when only the second replica has done anything, with what its Raft node has to send. -/
def web (e : Backend) (queue wire : List Message) : Web (Fin 3) where
  replica := Function.update first 1 e
  log _ := []
  queue i := if i = 1 then queue else []
  wire := wire

/-- A call of the second replica. -/
theorem turn_web {queue queue' wire wire' : List Message}
    (hok : (step (node 1) calm e ev).isOk = true) (harrived : ∀ did m, ev ≠ .inbound (.raft did m))
    (hhanded : ∀ rd, ev = .ready rd → rd.messages ⊆ queue)
    (htaken : ∀ p, Effect.propose p ∈ (final (step (node 1) calm e ev)).trace.drop e.trace.length →
      ∃ m ∈ queue', Carries p m)
    (hwire : wire' = wire ++ sent ((final (step (node 1) calm e ev)).trace.drop e.trace.length)) :
    Turn node (web e queue wire) (web (final (step (node 1) calm e ev)) queue' wire') 1 calm ev where
  ok := by
    simp only [web, Function.update_self]
    exact step_eq_ok hok
  others j hj := by simp [web, hj]
  arrived did m hev := absurd hev (harrived did m)
  handed rd hev _ := hhanded rd hev
  taken p hp := by
    simp only [effects, web, Function.update_self] at hp
    exact .inr (htaken p hp)
  wire := by
    have hremaining : (web e queue wire).remaining 1 ev = wire := by
      unfold remaining
      split
      · exact absurd rfl (harrived _ _)
      · rfl
    rw [hremaining]
    simp only [effects, web, Function.update_self]
    exact hwire

/-- The proposal of the second replica. -/
def motion : RaftProposal := ⟨[1], [post], "d2"⟩

/-- The message by which it goes to the leader. -/
def forward : Message := ⟨true, 1, 0, [⟨0, 0, .proposal motion⟩]⟩

/-- The second replica with an entry. -/
def waiting : Backend := final (step (node 1) calm (first 1) (.enqueue post))

/-- The second replica when it has proposed the entry. -/
def moved : Backend := final (step (node 1) calm waiting .tick)

/-- The second replica when it has sent the message. -/
def forwarded : Backend := final (step (node 1) calm moved (.ready { batch [] with messages := [forward] }))

theorem initial_web : (web (first 1) [] []).Initial "t" := by
  intro i
  have hstore : ((web (first 1) [] []).replica i).store = Store.empty := by
    simp only [web, Function.update_eq_self]
    fin_cases i <;> rfl
  rw [hstore]
  exact ⟨Store.ledger_empty, fun r hr => absurd hr.1 List.not_mem_nil⟩

theorem carries_forward : Carries motion forward := ⟨_, List.mem_singleton_self _, rfl⟩

theorem turn_enqueue : Turn node (web (first 1) [] []) (web waiting [] []) 1 calm (.enqueue post) := by
  refine turn_web (by decide +kernel) (fun _ _ h => by cases h) (fun _ h => by cases h) (fun p hp => ?_)
    (by decide +kernel)
  have heffects : (final (step (node 1) calm (first 1) (.enqueue post))).trace.drop (first 1).trace.length =
      [.write (.enqueueEntry post 1)] := by decide +kernel
  rw [heffects] at hp
  cases List.mem_singleton.mp hp

theorem effects_tick : (final (step (node 1) calm waiting .tick)).trace.drop waiting.trace.length =
    [.write (.claimPendingEntries [1]), .propose motion] := by decide +kernel

theorem turn_tick : Turn node (web waiting [] []) (web moved [forward] []) 1 calm .tick := by
  refine turn_web (by decide +kernel) (fun _ _ h => by cases h) (fun _ h => by cases h) (fun p hp => ?_)
    (by decide +kernel)
  rw [effects_tick] at hp
  rcases List.mem_pair.mp hp with h | h
  · cases h
  · obtain rfl := Effect.propose.inj h
    exact ⟨forward, List.mem_singleton_self _, carries_forward⟩

theorem turn_ready : Turn node (web moved [forward] []) (web forwarded [] [forward]) 1 calm
    (.ready { batch [] with messages := [forward] }) := by
  refine turn_web (by decide +kernel) (fun _ _ h => by cases h) (fun rd h => ?_) (fun p hp => ?_)
    (by decide +kernel)
  · obtain rfl := Event.ready.inj h
    exact List.Subset.refl _
  · have hroutine : ∀ a ∈ forwarded.trace.drop moved.trace.length, a.isRoutine = true := by decide +kernel
    cases hroutine _ hp

/-- The row is claimed. -/
theorem reserved_forwarded : Reserved forwarded.store ⟨1, "t", post, 1⟩ :=
  ⟨by decide +kernel, by decide +kernel⟩

/-- **A claim is stranded**: a follower proposes an entry, the message to the leader is lost, and the entry
is claimed although no log and no message has the proposal. -/
theorem claim_stranded : (web (first 1) [] []).Initial "t" ∧
    Relation.ReflTransGen (fun w w' => ∃ move, Web.Step node w w' move) (web (first 1) [] []) (web forwarded [] []) ∧
    ¬(web forwarded [] []).ClaimsInFlight node "t" := by
  refine ⟨initial_web, ?_, fun h => ?_⟩
  · refine .tail (.tail (.tail (.single ⟨.call 1 calm _, turn_enqueue⟩) ⟨.call 1 calm _, turn_tick⟩)
      ⟨.call 1 calm _, turn_ready⟩) ⟨.lose forward, List.mem_singleton_self _, ?_⟩
    simp [web]
  · have hreserved : Reserved ((web forwarded [] []).replica 1).store ⟨1, "t", post, 1⟩ := by
      simp only [web, Function.update_self]
      exact reserved_forwarded
    obtain ⟨p, -, hp⟩ := h 1 _ hreserved rfl
    cases hp with
    | log hentry hdata => exact absurd hentry List.not_mem_nil
    | queue hm hcarries => simp [web] at hm
    | @batch i rd m hrd hm hcarries =>
      have hnone : ∀ j, ((web forwarded [] []).replica j).pendingReady = none := by decide +kernel
      rw [hnone i] at hrd
      cases hrd
    | wire hm hcarries => exact absurd hm List.not_mem_nil

/-- A call that receives and sends nothing drops nothing, if there was nothing. -/
theorem keeps_web {queue : List Message} (hready : ∀ rd, ev ≠ .ready rd)
    (harrived : ∀ did m, ev ≠ .inbound (.raft did m))
    (hreleased : ∀ ids, Effect.failed (.releasePendingClaimIDs ids) ∉ e'.trace.drop e.trace.length) :
    Keeps node (web e [] []) (web e' queue []) 1 ev where
  log entry hentry := absurd hentry List.not_mem_nil
  queue m hm := absurd hm List.not_mem_nil
  known rd hev := absurd hev (hready rd)
  received did m hev := absurd hev (harrived did m)
  released ids hids := by
    simp only [effects, web, Function.update_self] at hids
    exact hreleased ids hids

/-- The proposal is under way as long as the message has not been lost. -/
theorem claimed_in_flight_moved : Reserved moved.store ⟨1, "t", post, 1⟩ ∧
    ∃ p, (web moved [forward] []).Holds node 1 ⟨1, "t", post, 1⟩ p ∧ (web moved [forward] []).InFlight p := by
  have hreserved : Reserved moved.store ⟨1, "t", post, 1⟩ := ⟨by decide +kernel, by decide +kernel⟩
  have hfirst : CarefulStep node (web (first 1) [] []) (web waiting [] []) := by
    refine ⟨.call 1 calm _, turn_enqueue, keeps_web (fun _ h => by cases h) (fun _ _ h => by cases h) fun ids h => ?_⟩
    have heffects : waiting.trace.drop (first 1).trace.length = [.write (.enqueueEntry post 1)] := by
      decide +kernel
    rw [heffects] at h
    cases List.mem_singleton.mp h
  have hsecond : CarefulStep node (web waiting [] []) (web moved [forward] []) := by
    refine ⟨.call 1 calm _, turn_tick, keeps_web (fun _ h => by cases h) (fun _ _ h => by cases h) fun ids h => ?_⟩
    rw [show moved = final (step (node 1) calm waiting .tick) from rfl, effects_tick] at h
    rcases List.mem_pair.mp h with h | h <;> cases h
  refine ⟨hreserved, claimed_in_flight node "t" initial_web (.tail (.single hfirst) hsecond) 1 _ ?_ rfl⟩
  simp only [web, Function.update_self]
  exact hreserved

end Trio

end MoltMesh.Raft

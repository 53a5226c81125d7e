import Mathlib.Logic.Function.Basic
import Mathlib.Logic.Relation
import MoltMesh.Raft.Acks
import MoltMesh.Raft.Membership
import MoltMesh.Raft.Passing
import MoltMesh.Rpc.Authority

/-!
# Who adds observers

An observer is added to a Raft thread when a committed entry of a certain kind is
applied, whoever has written it.  `AddThreadReplica` makes such entries for the creator
only; `AppendEntry` makes them for everyone.  `Network` is a group of daemons with their
RPC servers, Raft replicas and outboxes, and with the requests that have been made of
them.
-/

namespace MoltMesh.Rpc

open MoltMesh.Lib Pb Raftpb
open Raft (Node Backend Effect Event Life Passes Roster replay final step newRaftBackend)

variable {C : Ed25519} {S : Server} {env : Env} {authorization : List String} {T creator : String}
  {t : ThreadEntry} {e : Backend}

/-! ## The calls of a server -/

/-- The calls by which a client has to do with the replicas of a thread. -/
inductive ClientCall
  | append (authorization : List String) (req : AppendEntryRequest)
  | addReplica (authorization : List String) (req : ThreadReplicaRequest)
  /-- A call of `AddThreadReplica` looks whether the observer has been committed. -/
  | poll (threadID replicaDid : String)

/-- Whom a call with these `authorization` values is made for. -/
def callerOf (S : Server) (env : Env) (authorization : List String) : Option String :=
  match (scopedOwner S env authorization).1 with
  | .error _ => none
  | .ok owner => some (authorOf S owner)

namespace ClientCall

/-- The server after a call. -/
def serve (C : Ed25519) (S : Server) (env : Env) : ClientCall → Server
  | append authorization req => (appendEntry C S env authorization req).2
  | addReplica authorization req => (addThreadReplica S env authorization req).2
  | poll threadID replicaDid => (pollReplica S env threadID replicaDid).2

/-- Whom a call is made for. -/
def caller (S : Server) (env : Env) : ClientCall → Option String
  | append authorization _ => callerOf S env authorization
  | addReplica authorization _ => callerOf S env authorization
  | poll _ _ => none

/-- The condition on a call: an entry that adds an observer to the thread is appended by the creator
only. -/
def ByCreator (T creator : String) (S : Server) (env : Env) : ClientCall → Prop
  | append authorization req => req.threadId = T →
    (req.encryptedEntry.elim req.kind ThreadEntry.kind) = "membership:add-observer" →
      callerOf S env authorization = some creator
  | _ => True

end ClientCall

/-- What a call does to the server. -/
inductive Served (S : Server) (call : ClientCall) (env : Env) (S' : Server) : Prop
  | idle (hstore : S'.db.toStore = S.db.toStore)
    (houtbox : ∀ w ∈ S'.outbox, w ∈ S.outbox ∨ w.thread ∈ S.db.threads.rows)
  /-- The caller has appended an entry. -/
  | appended {authorization : List String} {req : AppendEntryRequest} {entry : ThreadEntry}
    (hcall : call = .append authorization req)
    (hcaller : callerOf S env authorization = some entry.authorDid)
    (hkind : entry.kind = req.encryptedEntry.elim req.kind ThreadEntry.kind)
    (hstore : S'.db.toStore = S.db.enqueueEntry req.threadId entry env.now)
    (houtbox : ∀ w ∈ S'.outbox, w ∈ S.outbox ∨ w.thread ∈ S.db.threads.rows)
  /-- The creator has asked for an observer. -/
  | observer {th : Thread} {entry : ThreadEntry} (hcaller : call.caller S env = some entry.authorDid)
    (hth : th ∈ S.db.threads.rows) (hcreator : th.creatorDid = entry.authorDid)
    (hstore : S'.db.toStore = S.db.enqueueEntry th.id entry env.now) (houtbox : S'.outbox = S.outbox)

theorem enqueueThreadWake_outbox {th : Thread} {w : Wake} (h : w ∈ (enqueueThreadWake S env th).2.outbox) :
    w ∈ S.outbox ∨ w.thread = th := by
  rcases List.mem_append.mp h with h | h
  · exact .inl h
  · obtain ⟨did, -, rfl⟩ := List.mem_map.mp h
    exact .inr rfl

theorem managerAppendEntry_outbox (S : Server) (env : Env) (threadID : String) (entry : ThreadEntry) :
    (managerAppendEntry S env threadID entry).2.outbox = S.outbox := by
  unfold managerAppendEntry
  cases env.fails .enqueueEntry with
  | some err => rfl
  | none =>
    cases env.fails .activate with
    | some err => rfl
    | none => cases env.fails .tell <;> rfl

theorem acknowledge_outbox {threadID : String} {entry : ThreadEntry} {w : Wake}
    (h : w ∈ (acknowledge S env threadID entry).2.outbox) : w ∈ S.outbox ∨ w.thread ∈ S.db.threads.rows := by
  unfold acknowledge at h
  split at h
  · exact .inl h
  · rename_i th hth
    have hwake : w ∈ (enqueueThreadWake S env th).2.outbox := by
      split at h <;> (rename_i heq; rwa [heq])
    refine (enqueueThreadWake_outbox hwake).imp_right fun heq => ?_
    rw [heq]
    exact (getThread_eq_ok hth).1

/-- A call of `AppendEntry` wakes the replicas of a thread that is stored. -/
theorem appendEntry_outbox {req : AppendEntryRequest} {w : Wake}
    (h : w ∈ (appendEntry C S env authorization req).2.outbox) :
    w ∈ S.outbox ∨ w.thread ∈ S.db.threads.rows := by
  have hdb := @scopedOwner_db S env authorization
  have hout := @scopedOwner_outbox S env authorization
  unfold appendEntry at h
  generalize scopedOwner S env authorization = x at hdb hout h
  obtain ⟨_ | owner, S₁⟩ := x
  · exact .inl (hout ▸ h)
  dsimp only at hdb hout h
  split at h
  · exact .inl (hout ▸ h)
  · rename_i entry _
    have hdb₂ := managerAppendEntry_db S₁ env req.threadId entry
    have hout₂ := managerAppendEntry_outbox S₁ env req.threadId entry
    generalize managerAppendEntry S₁ env req.threadId entry = y at hdb₂ hout₂ h
    obtain ⟨_ | _, S₂⟩ := y
    · exact .inl (hout ▸ hout₂ ▸ h)
    · dsimp only at hdb₂ hout₂ h
      have hthreads : S₂.db.threads = S.db.threads := by
        rw [hdb₂, ← hdb]
        split <;> rfl
      rw [← hthreads, ← hout, ← hout₂]
      exact acknowledge_outbox h

theorem append_served (C : Ed25519) (S : Server) (env : Env) (authorization : List String)
    (req : AppendEntryRequest) :
    Served S (.append authorization req) env (appendEntry C S env authorization req).2 := by
  have houtbox := fun w => @appendEntry_outbox C S env authorization req w
  have hdb := @appendEntry_db C S env authorization req
  cases henq : enqueued C S env authorization req with
  | none =>
    rw [henq] at hdb
    exact .idle (congrArg Database.toStore hdb) houtbox
  | some entry =>
    rw [henq] at hdb
    obtain ⟨-, owner, howner, hentry⟩ := enqueued_eq_some henq
    have hauthor : entry.authorDid = authorOf S owner ∧
        entry.kind = req.encryptedEntry.elim req.kind ThreadEntry.kind := by
      unfold entryOf at hentry
      split at hentry
      · rename_i hplain
        obtain rfl := Except.ok.inj hentry
        exact ⟨rfl, by rw [hplain]; rfl⟩
      · rename_i e hsome
        split at hentry
        · cases hentry
        · rename_i hcheck
          obtain rfl := Except.ok.inj hentry
          exact ⟨(checkEncrypted_eq_ok hcheck).1, by rw [hsome]; rfl⟩
    refine .appended rfl ?_ hauthor.2 (congrArg Database.toStore hdb) houtbox
    rw [callerOf, howner, hauthor.1]

theorem recordObserver_store (S : Server) (env : Env) (threadID replicaDid : String) :
    (recordObserver S env threadID replicaDid).2.db.toStore = S.db.toStore ∧
      (recordObserver S env threadID replicaDid).2.outbox = S.outbox := by
  unfold recordObserver
  dsimp only
  split
  · exact ⟨rfl, rfl⟩
  · split
    · exact ⟨rfl, rfl⟩
    · rename_i db hdb
      refine ⟨?_, rfl⟩
      obtain ⟨-, heq⟩ := Option.ite_none_left_eq_some.mp hdb
      rw [← Option.some.inj heq]

theorem addReplica_served (S : Server) (env : Env) (authorization : List String)
    (req : ThreadReplicaRequest) :
    Served S (.addReplica authorization req) env (addThreadReplica S env authorization req).2 := by
  have hdb := @scopedOwner_db S env authorization
  have hout := @scopedOwner_outbox S env authorization
  have hdid := @scopedOwner_did S env authorization
  have hidle {S' : Server} (h : S'.db.toStore = S.db.toStore) (h' : S'.outbox = S.outbox) :
      Served S (.addReplica authorization req) env S' := .idle h fun w hw => .inl (h' ▸ hw)
  unfold addThreadReplica
  split
  · exact hidle rfl rfl
  split
  · exact hidle rfl rfl
  rename_i th hth
  have hcaller : callerOf S env authorization =
      match (scopedOwner S env authorization).1 with
      | .error _ => none
      | .ok owner => some (authorOf S owner) := rfl
  generalize scopedOwner S env authorization = x at hdb hout hdid hcaller
  obtain ⟨_ | owner, S₁⟩ := x
  · exact hidle (congrArg Database.toStore hdb) hout
  dsimp only at hdb hout hdid hcaller ⊢
  have hauthor : authorOf S₁ owner = authorOf S owner :=
    congrArg (fun d => if owner ≠ "" then owner else d) hdid
  rw [hauthor]
  split
  · exact hidle (congrArg Database.toStore hdb) hout
  rename_i hcreator
  split
  · exact hidle (congrArg Database.toStore hdb) hout
  have hdb₂ := managerAppendEntry_db S₁ env th.id (observerEntry env (authorOf S owner) req.replicaDid)
  have hout₂ := managerAppendEntry_outbox S₁ env th.id
    (observerEntry env (authorOf S owner) req.replicaDid)
  generalize managerAppendEntry S₁ env th.id (observerEntry env (authorOf S owner) req.replicaDid) = y
    at hdb₂ hout₂
  -- Recording the observer changes nothing of this.
  have hend {S' : Server} (h : S'.db.toStore = y.2.db.toStore) (h' : S'.outbox = y.2.outbox) :
      Served S (.addReplica authorization req) env S' := by
    rw [hdb₂] at h
    rw [hout₂, hout] at h'
    split at h
    · exact hidle (h.trans (congrArg Database.toStore hdb)) h'
    · have hby : th.creatorDid = (observerEntry env (authorOf S owner) req.replicaDid).authorDid :=
        not_not.mp hcreator
      refine .observer (hcaller.trans rfl) (getThread_eq_ok hth).1 hby ?_ h'
      rw [h, hdb]
      rfl
  obtain ⟨_ | _, S₂⟩ := y
  · exact hend rfl rfl
  · obtain ⟨hstore, hout₃⟩ := recordObserver_store S₂ env th.id req.replicaDid
    dsimp only
    generalize recordObserver S₂ env th.id req.replicaDid = z at hstore hout₃
    obtain ⟨_ | _, S₃⟩ := z <;> exact hend hstore hout₃

theorem poll_served (S : Server) (env : Env) (threadID replicaDid : String) :
    Served S (.poll threadID replicaDid) env (pollReplica S env threadID replicaDid).2 := by
  unfold pollReplica
  split
  · exact .idle rfl fun w hw => .inl hw
  · rename_i th hth
    split
    · exact .idle rfl fun w hw => .inl hw
    · have hwake {w : Wake} (hw : w ∈ (enqueueThreadWake S env th).2.outbox) :
          w ∈ S.outbox ∨ w.thread ∈ S.db.threads.rows := by
        refine (enqueueThreadWake_outbox hw).imp_right fun heq => ?_
        rw [heq]
        exact (getThread_eq_ok hth).1
      have hdb : (enqueueThreadWake S env th).2.db = S.db := rfl
      generalize enqueueThreadWake S env th = y at hwake hdb
      obtain ⟨_ | _, S₁⟩ := y <;> exact .idle (congrArg Database.toStore hdb) fun w => hwake

theorem serve_served (C : Ed25519) (S : Server) (env : Env) (call : ClientCall) :
    Served S call env (call.serve C S env) := by
  cases call with
  | append authorization req => exact append_served C S env authorization req
  | addReplica authorization req => exact addReplica_served S env authorization req
  | poll threadID replicaDid => exact poll_served S env threadID replicaDid

/-! ## Networks -/

/-- A daemon: the tables of its members, its outbox, and the replica of the thread with its part of
the database. -/
structure Daemon where
  members : Table MemberRow fun r => (r.threadId, r.did)
  membershipEpochs : Table (String × Nat) Prod.fst
  outbox : List Wake
  life : Life

/-- The part of the database that the replica uses. -/
def Daemon.store (d : Daemon) : Store :=
  match d.life with
  | .up e => e.store
  | .down s => s

/-- A daemon with another such part. -/
def Daemon.withStore (d : Daemon) (s : Store) : Daemon :=
  { d with life := match d.life with
      | .up e => .up { e with store := s }
      | .down _ => .down s }

/-- The RPC server of a daemon. -/
def Daemon.server (d : Daemon) (did : String) (sessions : SessionManager) : Server :=
  { did, sessions, outbox := d.outbox,
    db := { d.store with members := d.members, membershipEpochs := d.membershipEpochs } }

/-- The daemon after a call of its server. -/
def Daemon.absorb (d : Daemon) (S : Server) : Daemon :=
  { d.withStore S.db.toStore with
    members := S.db.members, membershipEpochs := S.db.membershipEpochs, outbox := S.outbox }

/-- An entry that has been enqueued for a caller. -/
structure Request where
  caller : String
  threadId : String
  entry : ThreadEntry
deriving DecidableEq

/-- The entries a call has enqueued, with its caller. -/
def requests (S S' : Server) (env : Env) (call : ClientCall) : List Request :=
  match call.caller S env with
  | none => []
  | some did => (addedRows S.db.toStore S'.db.toStore).map fun r => ⟨did, r.threadId, r.payload⟩

/-- The daemons of a thread, with all that their replicas have done and all that they have been asked
for. -/
structure Network (ι : Type) where
  daemon : ι → Daemon
  past : List Effect
  requests : List Request

/-- The entries replicas have proposed or stored. -/
def spoken (past : List Effect) : List ThreadEntry :=
  (Raft.proposals past).flatMap RaftProposal.entries ++ Raft.storedEntries past

namespace Network

variable {ι : Type} [DecidableEq ι] {node : ι → Node} {W W' : Network ι} {i : ι}

/-- What replicas hand to a replica: committed entries that some replica has proposed or stored, and
blocks that some replica has sent. -/
structure Sourced (W : Network ι) (e : Backend) (ev : Event) : Prop where
  ready : ∀ rd, ev = .ready rd → ∀ entry ∈ (e.pendingReady.getD rd).committedEntries,
    ∀ t ∈ Raft.entriesOf entry, t ∈ spoken W.past
  block : ∀ b, ev = .inbound (.committedBlock b) → .broadcast (.committedBlock b) ∈ W.past
  /-- What is enqueued comes from the server. -/
  enqueue : ∀ t, ev ≠ .enqueue t

/-- One of the daemons has changed. -/
def set (W : Network ι) (i : ι) (d : Daemon) (δ : List Effect) (qs : List Request) : Network ι :=
  ⟨Function.update W.daemon i d, W.past ++ δ, W.requests ++ qs⟩

/-- What may happen in a network of replicas of thread `T`; `ok` is a condition on the calls of
clients. -/
inductive Step (node : ι → Node) (T : String) (ok : Server → Env → ClientCall → Prop)
    (W : Network ι) : Network ι → Prop
  /-- A client calls the server of a daemon. -/
  | client {i : ι} {S : Server} {env : Env} {call : ClientCall} {sessions : SessionManager}
    (hS : S = (W.daemon i).server (node i).id.did sessions) (hok : ok S env call) :
    Step node T ok W (W.set i ((W.daemon i).absorb (call.serve (node i).crypto S env)) []
      (Rpc.requests S (call.serve (node i).crypto S env) env call))
  /-- A replica takes a call. -/
  | call {i : ι} {env : Raft.Env} {ev : Event} {e e' : Backend} {δ : List Effect}
    (hlife : (W.daemon i).life = .up e) (hsourced : W.Sourced e ev)
    (hstep : step (node i) env e ev = .ok e') (hδ : e'.trace = e.trace ++ δ) :
    Step node T ok W (W.set i { W.daemon i with life := .up e' } δ [])
  /-- The process stops somewhere in a call. -/
  | stop {i : ι} {env : Raft.Env} {ev : Event} {e : Backend} {α : List Effect}
    (hlife : (W.daemon i).life = .up e) (hsourced : W.Sourced e ev)
    (hα : e.trace ++ α <+: (final (step (node i) env e ev)).trace) :
    Step node T ok W (W.set i { W.daemon i with life := .down (replay e.thread.id e.store α) } α [])
  /-- The replica is built from the descriptor it has stored. -/
  | start {i : ι} {env : Raft.Env} {s : Store} {th : Thread} {how : Raft.NodeStart} {e : Backend}
    (hlife : (W.daemon i).life = .down s) (hth : s.threads.lookup T = some th)
    (hnew : newRaftBackend (node i) env th s = .ok (how, e)) :
    Step node T ok W (W.set i { W.daemon i with life := .up e } e.trace [])
  /-- The `SaveThread` of `InviteReceived`, for a message from the outbox of a daemon. -/
  | invite {i j : ι} {w : Wake} (hw : w ∈ (W.daemon j).outbox) :
    Step node T ok W (W.set i ((W.daemon i).withStore ((W.daemon i).store.saveThread w.thread)) [] [])

/-- No replica of the thread runs, nothing is pending for it, and descriptors name the creator. -/
structure Initial (T creator : String) (W : Network ι) : Prop where
  down : ∀ i, ∃ s, (W.daemon i).life = .down s
  pending : ∀ i, ∀ r ∈ (W.daemon i).store.pending.rows, r.threadId ≠ T
  threads : ∀ i, ∀ th ∈ (W.daemon i).store.threads.rows, th.id = T → th.creatorDid = creator
  outbox : ∀ i, ∀ w ∈ (W.daemon i).outbox, w.thread.id = T → w.thread.creatorDid = creator
  past : W.past = []

/-- An entry that adds an observer has the creator for its author and has been requested for the
creator. -/
def Vetted (T creator : String) (W : Network ι) (t : ThreadEntry) : Prop :=
  t.kind = "membership:add-observer" →
    t.authorDid = creator ∧ ⟨creator, T, t⟩ ∈ W.requests

/-- What holds of a network in which only the creator asks for observers. -/
structure Guarded (T creator : String) (W : Network ι) : Prop where
  pending : ∀ i, ∀ r ∈ (W.daemon i).store.pending.rows, r.threadId = T → W.Vetted T creator r.payload
  past : ∀ a ∈ W.past, a.Passes (W.Vetted T creator) T creator
  threads : ∀ i, ∀ th ∈ (W.daemon i).store.threads.rows, th.id = T → th.creatorDid = creator
  outbox : ∀ i, ∀ w ∈ (W.daemon i).outbox, w.thread.id = T → w.thread.creatorDid = creator
  up : ∀ i e, (W.daemon i).life = .up e → e.thread.id = T ∧ e.thread.creatorDid = creator

/-! ## What every step keeps -/

omit [DecidableEq ι] in
theorem Vetted.mono (h : W.Vetted T creator t) (hq : W.requests ⊆ W'.requests) :
    W'.Vetted T creator t := fun hkind => ⟨(h hkind).1, hq (h hkind).2⟩

section Set

variable {d : Daemon} {δ : List Effect} {qs : List Request}

theorem Vetted.set (h : W.Vetted T creator t) : (W.set i d δ qs).Vetted T creator t :=
  h.mono (List.subset_append_left _ _)

/-- It is enough to look at the daemon that has changed. -/
theorem Guarded.set (h : W.Guarded T creator)
    (hpending : ∀ r ∈ d.store.pending.rows, r.threadId = T → (W.set i d δ qs).Vetted T creator r.payload)
    (hpast : ∀ a ∈ δ, a.Passes (W.Vetted T creator) T creator)
    (hthreads : ∀ th ∈ d.store.threads.rows, th.id = T → th.creatorDid = creator)
    (houtbox : ∀ w ∈ d.outbox, w.thread.id = T → w.thread.creatorDid = creator)
    (hup : ∀ e, d.life = .up e → e.thread.id = T ∧ e.thread.creatorDid = creator) :
    (W.set i d δ qs).Guarded T creator := by
  have hdaemon (j : ι) : (W.set i d δ qs).daemon j = if j = i then d else W.daemon j :=
    Function.update_apply ..
  refine ⟨?_, ?_, ?_, ?_, ?_⟩
  · intro j
    rw [hdaemon]
    split
    · exact hpending
    · exact fun r hr hid => (h.pending j r hr hid).set
  · intro a ha
    have hold : a.Passes (W.Vetted T creator) T creator :=
      (List.mem_append.mp ha).elim (h.past a) (hpast a)
    exact hold.mono fun t ht => ht.set
  all_goals
    intro j
    rw [hdaemon]
    split
  · exact hthreads
  · exact h.threads j
  · exact houtbox
  · exact h.outbox j
  · exact hup
  · exact h.up j

end Set

@[simp] theorem store_withStore (d : Daemon) (s : Store) : (d.withStore s).store = s := by
  unfold Daemon.withStore Daemon.store
  cases d.life <;> rfl

/-- The replica of a daemon with another part of the database is the same. -/
theorem thread_withStore {d : Daemon} {s : Store} (h : (d.withStore s).life = .up e) :
    ∃ e₀, d.life = .up e₀ ∧ e.thread = e₀.thread := by
  unfold Daemon.withStore at h
  cases hl : d.life with
  | up e₀ =>
    rw [hl] at h
    exact ⟨e₀, rfl, by rw [← Life.up.inj h]⟩
  | down s₀ =>
    rw [hl] at h
    cases h

omit [DecidableEq ι] in
theorem Guarded.up_withStore (h : W.Guarded T creator) {s : Store}
    (he : ((W.daemon i).withStore s).life = .up e) : e.thread.id = T ∧ e.thread.creatorDid = creator := by
  obtain ⟨e₀, hlife, hthread⟩ := thread_withStore he
  rw [hthread]
  exact h.up i e₀ hlife

/-- What a client's call enqueues is recorded as its request. -/
theorem mem_requests_enqueueEntry {S' : Server} {call : ClientCall} {did threadID : String}
    {entry : ThreadEntry} (hcaller : call.caller S env = some did)
    (hstore : S'.db.toStore = S.db.enqueueEntry threadID entry env.now) :
    ⟨did, threadID, entry⟩ ∈ Rpc.requests S S' env call := by
  rw [Rpc.requests, hcaller, hstore]
  exact List.mem_map.mpr ⟨_, mem_addedRows_enqueueEntry.mpr rfl, rfl⟩

theorem Guarded.client (h : W.Guarded T creator) {call : ClientCall}
    {sessions : SessionManager} (hS : S = (W.daemon i).server (node i).id.did sessions)
    (hok : call.ByCreator T creator S env) :
    (W.set i ((W.daemon i).absorb (call.serve (node i).crypto S env)) []
      (Rpc.requests S (call.serve (node i).crypto S env) env call)).Guarded T creator := by
  have hserved := serve_served (node i).crypto S env call
  generalize call.serve (node i).crypto S env = S' at hserved
  have hstore₀ : S.db.toStore = (W.daemon i).store := by rw [hS]; rfl
  have hout₀ : S.outbox = (W.daemon i).outbox := by rw [hS]; rfl
  have hstore' : ((W.daemon i).absorb S').store = S'.db.toStore := store_withStore _ _
  -- A new row is vetted if an entry that adds an observer is the creator's.
  have henqueue {threadID : String} {entry : ThreadEntry} (hcaller : call.caller S env = some entry.authorDid)
      (heq : S'.db.toStore = S.db.enqueueEntry threadID entry env.now)
      (hby : threadID = T → entry.kind = "membership:add-observer" → entry.authorDid = creator) :
      ∀ r ∈ S'.db.pending.rows, r.threadId = T →
        (W.set i ((W.daemon i).absorb S') [] (Rpc.requests S S' env call)).Vetted T creator r.payload := by
    intro r hr hid
    rw [heq, hstore₀] at hr
    rcases Table.mem_insertOrReplace.mp hr with ⟨hr, -⟩ | rfl
    · exact (h.pending i r hr hid).set
    · intro hkind
      have hauthor := hby hid hkind
      have hmem := mem_requests_enqueueEntry hcaller heq
      rw [hauthor, show threadID = T from hid] at hmem
      exact ⟨hauthor, List.mem_append_right _ hmem⟩
  have hkept {th : Thread} (hth : th ∈ S.db.threads.rows) (hid : th.id = T) : th.creatorDid = creator :=
    h.threads i th (hstore₀ ▸ hth) hid
  have hwakes (hout : ∀ w ∈ S'.outbox, w ∈ S.outbox ∨ w.thread ∈ S.db.threads.rows) :
      ∀ w ∈ S'.outbox, w.thread.id = T → w.thread.creatorDid = creator := by
    intro w hw hid
    rcases hout w hw with hw | hw
    · exact h.outbox i w (hout₀ ▸ hw) hid
    · exact hkept hw hid
  have hpast : ∀ a ∈ ([] : List Effect), a.Passes (W.Vetted T creator) T creator :=
    fun _ ha => absurd ha List.not_mem_nil
  have hup : ∀ e, ((W.daemon i).absorb S').life = .up e → e.thread.id = T ∧ e.thread.creatorDid = creator :=
    fun e he => h.up_withStore he
  cases hserved with
  | idle hstore hout =>
    refine h.set ?_ hpast ?_ (hwakes hout) hup
    · rw [hstore', hstore, hstore₀]
      exact fun r hr hid => (h.pending i r hr hid).set
    · rw [hstore', hstore]
      exact fun th => hkept
  | @appended authorization req entry hcall hcaller hkind hstore hout =>
    refine h.set ?_ hpast ?_ (hwakes hout) hup
    · rw [hstore']
      subst hcall
      refine henqueue hcaller hstore fun hid hk => ?_
      exact Option.some.inj (hcaller.symm.trans (hok hid (hkind ▸ hk)))
    · rw [hstore', hstore]
      exact fun th => hkept
  | @observer th entry hcaller hth hcreator hstore hout =>
    refine h.set ?_ hpast ?_ (hwakes fun w hw => .inl (hout ▸ hw)) hup
    · rw [hstore']
      exact henqueue hcaller hstore fun hid _ => hcreator.symm.trans (hkept hth hid)
    · rw [hstore', hstore]
      exact fun th => hkept

omit [DecidableEq ι] in
/-- What replicas have said is vetted. -/
theorem Guarded.spoken (h : W.Guarded T creator) (ht : t ∈ spoken W.past) :
    W.Vetted T creator t := by
  rcases List.mem_append.mp ht with ht | ht
  · obtain ⟨p, hp, ht⟩ := List.mem_flatMap.mp ht
    obtain ⟨a, ha, hap⟩ := List.mem_filterMap.mp hp
    split at hap
    · obtain rfl := Option.some.inj hap
      exact h.past _ ha t ht
    · cases hap
  · exact Effect.Passes.stored h.past ht

omit [DecidableEq ι] in
/-- What a replica passes on in a call is vetted. -/
theorem Guarded.passes (h : W.Guarded T creator) (N : Node) (env : Raft.Env) {ev : Event}
    (hlife : (W.daemon i).life = .up e) (hsourced : W.Sourced e ev) :
    ∃ δ, Raft.Logged e (final (step N env e ev)) δ ∧
      (∀ a ∈ δ, a.Passes (W.Vetted T creator) T creator) ∧
      (final (step N env e ev)).thread.creatorDid = creator := by
  obtain ⟨hid, hcreator⟩ := h.up i e hlife
  have hstore : (W.daemon i).store = e.store := by rw [Daemon.store, hlife]
  have hpasses : Passes (W.Vetted T creator) e (final (step N env e ev)) := by
    refine Passes.step ?_ ?_ ?_ ?_
    · rw [hid]
      exact fun r hr => h.pending i r (hstore ▸ hr)
    · exact fun rd hev entry hentry t ht => h.spoken (hsourced.ready rd hev entry hentry t ht)
    · exact fun b hev => h.past _ (hsourced.block b hev)
    · exact fun t hev => absurd hev (hsourced.enqueue t)
  obtain ⟨δ, htrace, hδ⟩ := hpasses.effects
  obtain ⟨γ, hγ⟩ := (Raft.step_trail N env e ev).logged
  obtain rfl : δ = γ := List.append_cancel_left (htrace.symm.trans hγ.trace)
  rw [hid, hcreator] at hδ
  exact ⟨δ, hγ, hδ, hpasses.creatorDid.trans hcreator⟩

theorem Guarded.step (h : W.Guarded T creator)
    (hstep : Step node T (fun S env call => call.ByCreator T creator S env) W W') :
    W'.Guarded T creator := by
  cases hstep with
  | client hS hok => exact h.client hS hok
  | @call i env ev e e' δ hlife hsourced hstep hδ =>
    obtain ⟨hid, -⟩ := h.up i e hlife
    obtain ⟨γ, hlog, hγ, hcreator⟩ := h.passes (node i) env hlife hsourced
    rw [hstep] at hlog hcreator
    obtain rfl : δ = γ := List.append_cancel_left (hδ.symm.trans hlog.trace)
    have hstore : (W.daemon i).store = e.store := by rw [Daemon.store, hlife]
    have hstore' : e'.store = replay T e.store δ := hid ▸ hlog.store
    refine h.set ?_ hγ ?_ (h.outbox i) ?_
    · change ∀ r ∈ e'.store.pending.rows, _
      rw [hstore']
      have hpending := Raft.pending_replay hγ (hstore ▸ h.pending i)
      exact fun r hr hid => (hpending r hr hid).set
    · change ∀ th ∈ e'.store.threads.rows, _
      rw [hstore']
      exact Raft.creator_replay hγ (hstore ▸ h.threads i)
    · intro e₁ he₁
      obtain rfl := Life.up.inj he₁
      exact ⟨hlog.threadId.trans hid, hcreator⟩
  | @stop i env ev e α hlife hsourced hα =>
    obtain ⟨hid, -⟩ := h.up i e hlife
    obtain ⟨γ, hlog, hγ, -⟩ := h.passes (node i) env hlife hsourced
    rw [hlog.trace, List.prefix_append_right_inj] at hα
    have hα' : ∀ a ∈ α, a.Passes (W.Vetted T creator) T creator := fun a ha => hγ a (hα.subset ha)
    have hstore : (W.daemon i).store = e.store := by rw [Daemon.store, hlife]
    refine h.set ?_ hα' ?_ (h.outbox i) nofun
    · change ∀ r ∈ (replay e.thread.id e.store α).pending.rows, _
      rw [hid]
      have hpending := Raft.pending_replay hα' (hstore ▸ h.pending i)
      exact fun r hr hid => (hpending r hr hid).set
    · change ∀ th ∈ (replay e.thread.id e.store α).threads.rows, _
      rw [hid]
      exact Raft.creator_replay hα' (hstore ▸ h.threads i)
  | @start i env s th how e hlife hth hnew =>
    obtain ⟨hthread, -, hstore, -, htrace⟩ := Raft.newRaftBackend_eq_ok hnew
    have hs : (W.daemon i).store = s := by rw [Daemon.store, hlife]
    obtain ⟨hmem, hid⟩ := Table.lookup_eq_some.mp hth
    refine h.set ?_ ?_ ?_ (h.outbox i) ?_
    · change ∀ r ∈ e.store.pending.rows, _
      rw [hstore]
      exact fun r hr hid => (h.pending i r (hs ▸ hr) hid).set
    · rw [htrace]
      intro a ha
      rw [List.mem_singleton.mp ha]
      trivial
    · change ∀ th ∈ e.store.threads.rows, _
      rw [hstore]
      exact fun th hth => h.threads i th (hs ▸ hth)
    · intro e₁ he₁
      obtain rfl := Life.up.inj he₁
      rw [hthread]
      exact ⟨hid, h.threads i th (hs ▸ hmem) hid⟩
  | @invite i j w hw =>
    refine h.set ?_ (fun _ ha => absurd ha List.not_mem_nil) ?_ (h.outbox i) fun e he => h.up_withStore he
    · rw [store_withStore]
      exact fun r hr hid => (h.pending i r hr hid).set
    · rw [store_withStore]
      intro th hth hid
      rcases Table.mem_insertOrReplace.mp hth with ⟨hth, -⟩ | rfl
      · exact h.threads i th hth hid
      · exact h.outbox j w hw hid

theorem guarded_of_run (h₀ : W.Initial T creator)
    (hrun : Relation.ReflTransGen (Step node T fun S env call => call.ByCreator T creator S env) W W') :
    W'.Guarded T creator := by
  induction hrun with
  | refl =>
    refine ⟨fun i r hr hid => absurd hid (h₀.pending i r hr), ?_, h₀.threads, h₀.outbox, ?_⟩
    · rw [h₀.past]
      exact fun _ ha => absurd ha List.not_mem_nil
    · intro i e he
      obtain ⟨s, hs⟩ := h₀.down i
      rw [hs] at he
      cases he
  | tail _ hstep ih => exact ih.step hstep

/-- **Only the creator adds observers**, in every run in which every client that appends an entry of
that kind is authenticated as the creator: whatever DID a replica adds to the thread's replicas in a
call, it is named by an entry of the creator that was requested for the creator. -/
theorem observers_by_creator (h₀ : W.Initial T creator)
    (hrun : Relation.ReflTransGen (Step node T fun S env call => call.ByCreator T creator S env) W W')
    {env : Raft.Env} {ev : Event} {e e' : Backend} (hlife : (W'.daemon i).life = .up e)
    (hsourced : W'.Sourced e ev) (hstep : Raft.step (node i) env e ev = .ok e') {did : String}
    (hnew : did ∈ e'.thread.replicaDids) (hold : did ∉ e.thread.replicaDids) :
    ∃ q ∈ W'.requests, q.threadId = T ∧ q.caller = creator ∧ q.entry.authorDid = creator ∧
      q.entry.kind = "membership:add-observer" ∧ textOf q.entry.payload = did := by
  have hguard := guarded_of_run h₀ hrun
  obtain ⟨γ, hlog, hγ, -⟩ := hguard.passes (node i) env hlife hsourced
  rw [hstep] at hlog
  obtain ⟨δ, hjoins⟩ := Raft.step_joins hstep
  obtain rfl : δ = γ := List.append_cancel_left (hjoins.trace.symm.trans hlog.trace)
  have hroster : did ∈ ((Raft.storedEntries δ).foldl Roster.join e.roster).replicaDids :=
    hjoins.roster ▸ hnew
  obtain hin | ⟨t, ht, hkind, hdid⟩ := Roster.mem_foldl_join hroster
  · exact absurd hin hold
  · obtain ⟨hauthor, hmem⟩ := Effect.Passes.stored hγ ht hkind
    exact ⟨_, hmem, rfl, rfl, hauthor, hkind, hdid⟩

end Network

/-! ## Two requests for an observer -/

namespace Trio

open Raft.Trio (node charter invited joined newRaftBackend_joined batch)

/-- All daemons have been invited, and none runs. -/
def lobby : Network (Fin 3) := ⟨fun _ => ⟨.empty, .empty, [], .down invited⟩, [], []⟩

theorem initial_lobby : lobby.Initial "t" "d1" where
  down _ := ⟨invited, rfl⟩
  pending _ _ hr := absurd hr List.not_mem_nil
  threads _ th hth _ := by
    obtain rfl : th = charter := List.mem_singleton.mp hth
    rfl
  outbox _ _ hw := absurd hw List.not_mem_nil
  past := rfl

variable (i : Fin 3) (call : ClientCall)

/-- One of them has started its replica. -/
def opened : Network (Fin 3) := lobby.set i { lobby.daemon i with life := .up (joined i) } (joined i).trace []

/-- Its server, without a session. -/
def server : Server := ((opened i).daemon i).server (node i).id.did ⟨.empty⟩

/-- The server after a call. -/
def served : Server := call.serve (node i).crypto (server i) Guest.calm

/-- The daemon has been called. -/
def called : Network (Fin 3) :=
  (opened i).set i (((opened i).daemon i).absorb (served i call)) []
    (requests (server i) (served i call) Guest.calm call)

/-- Its replica then. -/
def filled : Backend := { joined i with store := (served i call).db.toStore }

/-- Its replica after it has proposed what is pending. -/
def proposing : Backend := final (step (node i) Raft.Trio.calm (filled i call) .tick)

/-- What the replica has done to propose it. -/
def proposal : List Effect := (proposing i call).trace.drop (filled i call).trace.length

/-- The daemon has been called, and its replica has proposed what is pending. -/
def asked : Network (Fin 3) :=
  (called i call).set i { (called i call).daemon i with life := .up (proposing i call) } (proposal i call) []

theorem daemon_set {W : Network (Fin 3)} {d : Daemon} {δ : List Effect} {qs : List Request} :
    (W.set i d δ qs).daemon i = d := Function.update_self ..

variable {i call}

theorem life_called : ((called i call).daemon i).life = .up (filled i call) := by
  rw [called, daemon_set, opened, daemon_set]
  rfl

theorem life_asked : ((asked i call).daemon i).life = .up (proposing i call) := by
  rw [asked, daemon_set]

theorem run_asked {ok : Server → Env → ClientCall → Prop} (hok : ok (server i) Guest.calm call)
    (hstep : step (node i) Raft.Trio.calm (filled i call) .tick = .ok (proposing i call))
    (htrace : (proposing i call).trace = (filled i call).trace ++ proposal i call) :
    Relation.ReflTransGen (Network.Step node "t" ok) lobby (asked i call) := by
  have hstart : Network.Step node "t" ok lobby (opened i) := .start rfl rfl (newRaftBackend_joined i)
  have hclient : Network.Step node "t" ok (opened i) (called i call) := .client rfl hok
  have hsourced : (called i call).Sourced (filled i call) .tick := ⟨nofun, nofun, nofun⟩
  exact .tail (.tail (.single hstart) hclient) (.call life_called hsourced hstep htrace)

/-- A log with a proposal is sourced if the proposal has been made. -/
theorem sourced_batch {W : Network (Fin 3)} {p : RaftProposal} (he : e.pendingReady = none)
    (hp : ∀ t ∈ p.entries, t ∈ spoken W.past) : W.Sourced e (.ready (batch [⟨1, 1, .proposal p⟩])) := by
  refine ⟨?_, nofun, nofun⟩
  intro rd hrd entry hentry t ht
  obtain rfl := Event.ready.inj hrd
  rw [he] at hentry
  obtain rfl := List.mem_singleton.mp hentry
  exact hp t ht

/-- A call of `AppendEntry` for the kind of entry by which observers are added. -/
def appendD4 : ClientCall := .append [] ⟨"t", bytes "d4", "membership:add-observer", none⟩

/-- A call of `AddThreadReplica`. -/
def addD4 : ClientCall := .addReplica [] ⟨"t", "d4"⟩

/-- What is proposed after such a call of the daemon of `did`. -/
def proposedD4 (did : String) : RaftProposal := ⟨[1], [observerEntry Guest.calm did "d4"], did⟩

/-- The second daemon, which is not the creator's, appends an entry that names an observer, and its
replica adds the observer when the entry is committed.  Nothing has been requested for the creator. -/
theorem observer_of_another : ∃ (e e' : Backend) (ev : Event), lobby.Initial "t" "d1" ∧
    Relation.ReflTransGen (Network.Step node "t" fun _ _ _ => True) lobby (asked 1 appendD4) ∧
    ((asked 1 appendD4).daemon 1).life = .up e ∧ (asked 1 appendD4).Sourced e ev ∧
    step (node 1) Raft.Trio.calm e ev = .ok e' ∧ e.thread.creatorDid = "d1" ∧
    "d4" ∈ e'.thread.replicaDids ∧ "d4" ∉ e.thread.replicaDids ∧
    ∀ q ∈ (asked 1 appendD4).requests, q.caller = "d2" ∧ q.entry.authorDid = "d2" := by
  refine ⟨proposing 1 appendD4, _, .ready (batch [⟨1, 1, .proposal (proposedD4 "d2")⟩]), initial_lobby,
    run_asked trivial (Raft.step_eq_ok (by decide +kernel)) (by decide +kernel), life_asked, ?_,
    Raft.step_eq_ok (by decide +kernel), by decide +kernel, by decide +kernel, by decide +kernel,
    by decide +kernel⟩
  exact sourced_batch rfl (by decide +kernel)

theorem observers_by_creator_addD4 : ∃ q ∈ (asked 0 addD4).requests, q.threadId = "t" ∧ q.caller = "d1" ∧
    q.entry.authorDid = "d1" ∧ q.entry.kind = "membership:add-observer" ∧
    textOf q.entry.payload = "d4" := by
  have hrun : Relation.ReflTransGen
      (Network.Step node "t" fun S env call => call.ByCreator "t" "d1" S env) lobby (asked 0 addD4) :=
    run_asked trivial (Raft.step_eq_ok (by decide +kernel)) (by decide +kernel)
  have hsourced : (asked 0 addD4).Sourced (proposing 0 addD4)
      (.ready (batch [⟨1, 1, .proposal (proposedD4 "d1")⟩])) := sourced_batch rfl (by decide +kernel)
  have hstep : step (node 0) Raft.Trio.calm (proposing 0 addD4)
      (.ready (batch [⟨1, 1, .proposal (proposedD4 "d1")⟩])) = .ok _ :=
    Raft.step_eq_ok (by decide +kernel)
  exact Network.observers_by_creator initial_lobby hrun life_asked hsourced hstep (by decide +kernel)
    (by decide +kernel)

end Trio

end MoltMesh.Rpc

import MoltMesh.Creation
import MoltMesh.Members
import MoltMesh.Tendermint.Script

/-!
# The thread manager

`daemon/thread/actor_manager.go` and the part of `daemon/deliver/deliver.go` that takes a
`THREAD_INVITE`: the descriptors a node stores come from its own requests, from requests an SDK
has signed, from invitations and from imported histories.  All of them end in an
`INSERT OR REPLACE` of the row of the thread.

An invitation is also how a replica is woken up, so the descriptor it carries may be the one
that is stored or an older one (`latest_descriptor_iff`), and the member row it writes may
replace one that says more (`wake_idempotent_iff`).
-/

namespace MoltMesh

open MoltMesh.Lib Pb

/-- The statements and calls of the manager that may fail. -/
inductive ManagerCall
  | getThread
  | saveThread
  | membershipEpoch
  | saveMember
  | importHistory
  /-- The actor of a thread is started. -/
  | spawn

/-- What the environment decides during one call of the manager. -/
structure ManagerEnv where
  /-- What `uuid.New` returns. -/
  uuid : String
  /-- `time.Now()` in milliseconds since 1970. -/
  now : Int
  /-- The errors of the calls that fail. -/
  fails : ManagerCall → Option String

/-- `ActorManager`: the identity of the node, its database and the actors that run, each with the
descriptor it was started from.  Without an identity the DID is empty. -/
structure ActorManager where
  id : Identity
  db : Database
  actors : Table Thread Thread.id

namespace ActorManager

variable (C : Ed25519) (m : ActorManager) (env : ManagerEnv)

/-- `selfDID`. -/
def selfDID : String := m.id.did

/-- `GetThread`. -/
def getThread (threadID : String) : Except String Thread :=
  match env.fails .getThread with
  | some err => .error err
  | none => match m.db.threads.lookup threadID with
    | none => .error "thread not found"
    | some th => .ok th

/-- `SaveThread`. -/
def saveThread (th : Thread) : Except String ActorManager :=
  match env.fails .saveThread with
  | some err => .error err
  | none => .ok { m with db := { m.db with toStore := m.db.saveThread th } }

/-- `SaveMember`. -/
def saveMember (member : MemberRow) : Except String ActorManager :=
  match env.fails .saveMember with
  | some err => .error err
  | none => match m.db.saveMember member with
    | none => .error "invalid thread member"
    | some db => .ok { m with db }

/-- `ThreadSupervisor.Spawn`; an actor that runs is left as it is. -/
def spawn (th : Thread) : Except String ActorManager :=
  if (m.actors.lookup th.id).isSome then .ok m
  else match env.fails .spawn with
    | some err => .error err
    | none => .ok { m with actors := m.actors.insertOrReplace th }

/-- `ThreadSupervisor.Stop`. -/
def stop (threadID : String) : ActorManager :=
  { m with actors := m.actors.deleteWhere fun th => th.id = threadID }

/-- The epoch `recordSelfMembership` writes. -/
def joinedEpoch (threadID : String) : Nat :=
  if (env.fails .membershipEpoch).isSome then 1 else m.db.membershipEpoch threadID

/-- `recordSelfMembership`. -/
def recordSelfMembership (th : Thread) : Except String ActorManager :=
  if m.selfDID = "" ∨ m.selfDID ∉ th.replicaDids then .ok m
  else m.saveMember env ⟨th.id, m.selfDID, .observer, m.joinedEpoch env th.id⟩

/-- The actor of a thread whose number of voters has changed is stopped. -/
def stopStale (th : Thread) : ActorManager :=
  match m.getThread env th.id with
  | .error _ => m
  | .ok prev => if prev.n ≠ th.n then m.stop th.id else m

/-- `InviteReceived`. -/
def inviteReceived (th : Thread) : Except String Unit × ActorManager :=
  let m := m.stopStale env th
  match m.saveThread env th with
  | .error err => (.error ("save thread: " ++ err), m)
  | .ok m => match m.recordSelfMembership env th with
    | .error err => (.error ("record membership: " ++ err), m)
    | .ok m => match m.spawn env th with
      | .error err => (.error err, m)
      | .ok m => (.ok (), m)

/-! ## What an invitation writes -/

variable {m env} {th : Thread}

@[simp] theorem stopStale_db : (m.stopStale env th).db = m.db := by
  unfold stopStale
  split
  · rfl
  · split <;> rfl

@[simp] theorem stopStale_id : (m.stopStale env th).id = m.id := by
  unfold stopStale
  split
  · rfl
  · split <;> rfl

theorem spawn_eq_ok {m' : ActorManager} (h : m.spawn env th = .ok m') : m'.db = m.db := by
  unfold spawn at h
  split at h
  · cases h
    rfl
  · split at h
    · cases h
    · cases h
      rfl

theorem saveMember_eq_ok {m' : ActorManager} {r : MemberRow} (h : m.saveMember env r = .ok m') :
    env.fails .saveMember = none ∧ m.db.saveMember r = some m'.db := by
  unfold saveMember at h
  split at h
  · cases h
  · rename_i hfails
    split at h
    · cases h
    · rename_i db hdb
      cases h
      exact ⟨hfails, hdb⟩

/-- The member row an invitation writes, if it writes one. -/
def selfRow (m : ActorManager) (env : ManagerEnv) (th : Thread) : Option MemberRow :=
  if m.selfDID = "" ∨ m.selfDID ∉ th.replicaDids ∨ th.id = "" ∨ (env.fails .saveThread).isSome ∨
      (env.fails .saveMember).isSome then none
  else some ⟨th.id, m.selfDID, .observer, m.joinedEpoch env th.id⟩

/-- The database after an invitation has been taken. -/
def invited (m : ActorManager) (env : ManagerEnv) (th : Thread) : Database :=
  let db := if (env.fails .saveThread).isSome then m.db else { m.db with toStore := m.db.saveThread th }
  match selfRow m env th with
  | none => db
  | some r => { db with
    members := db.members.insertOrReplace r
    membershipEpochs := db.membershipEpochs.insertOrIgnore (th.id, 1) }

/-- **What an invitation does to the database.** -/
theorem inviteReceived_db : (m.inviteReceived env th).2.db = invited m env th := by
  have hsend (m' : ActorManager) : (match m'.spawn env th with
      | .error err => ((.error err : Except String Unit), m')
      | .ok m => (.ok (), m)).2.db = m'.db := by
    split
    · rfl
    · rename_i hspawn
      exact spawn_eq_ok hspawn
  unfold inviteReceived invited selfRow
  dsimp only
  unfold saveThread
  cases hsave : env.fails .saveThread with
  | some err => simp
  | none =>
    dsimp only
    unfold recordSelfMembership selfDID
    dsimp only
    rw [stopStale_id, stopStale_db]
    by_cases hself : m.id.did = "" ∨ m.id.did ∉ th.replicaDids
    · rw [if_pos hself, if_pos (by tauto), hsend]
      simp
    · rw [if_neg hself]
      unfold saveMember Database.saveMember
      cases hmember : env.fails .saveMember with
      | some err => simp
      | none =>
        rw [not_or, not_not] at hself
        by_cases hid : th.id = ""
        · simp [hid]
        · rw [if_neg (by simp [hid, hself.1]), if_neg (by simp [hid, hself.1, hself.2]), hsend]
          simp [joinedEpoch, Database.membershipEpoch]

/-! ## Repeated invitations -/

/-- The calls of `InviteReceived` with the descriptors they bring. -/
abbrev Invites := List (ManagerEnv × Thread)

/-- The manager after a sequence of invitations. -/
def receive (m : ActorManager) (calls : Invites) : ActorManager :=
  calls.foldl (fun m call => (m.inviteReceived call.1 call.2).2) m

@[simp] theorem receive_append (m : ActorManager) (calls calls' : Invites) :
    m.receive (calls ++ calls') = (m.receive calls).receive calls' := List.foldl_append

theorem invited_threads : (invited m env th).threads =
    if (env.fails .saveThread).isSome then m.db.threads else m.db.threads.insertOrReplace th := by
  unfold invited
  split <;> split <;> rfl

theorem lookup_inviteReceived (threadID : String) :
    (m.inviteReceived env th).2.db.threads.lookup threadID =
      if (env.fails .saveThread).isNone ∧ th.id = threadID then some th else m.db.threads.lookup threadID := by
  rw [inviteReceived_db, invited_threads]
  cases env.fails .saveThread with
  | some err => rfl
  | none =>
    by_cases hid : th.id = threadID
    · subst hid
      simp
    · simp [hid, Table.lookup_insertOrReplace_of_ne (Ne.symm hid)]

theorem saved_of_inviteReceived (h : (m.inviteReceived env th).1 = .ok ()) : env.fails .saveThread = none := by
  unfold inviteReceived saveThread at h
  cases hsave : env.fails .saveThread with
  | none => rfl
  | some err =>
    rw [hsave] at h
    cases h

/-- **When the latest descriptor stays**: once `last` has been received it is stored, and it is still stored
after every further invitation, exactly if no other descriptor of the thread is saved after it. -/
theorem latest_descriptor_iff (m : ActorManager) (last : Thread) (calls : Invites) :
    (∀ before env between after, calls = before ++ (env, last) :: (between ++ after) →
      ((m.receive before).inviteReceived env last).1 = .ok () →
      (m.receive (before ++ (env, last) :: between)).db.threads.lookup last.id = some last) ↔
    ∀ before env between env' th after, calls = before ++ (env, last) :: (between ++ (env', th) :: after) →
      ((m.receive before).inviteReceived env last).1 = .ok () →
      env'.fails .saveThread = none → th.id = last.id → th = last := by
  constructor
  · intro h before env between env' th after hcalls hok hsave hid
    have hstored := h before env (between ++ [(env', th)]) after (by rw [hcalls]; simp) hok
    rw [← List.cons_append, ← List.append_assoc, receive_append] at hstored
    change ((_ : ActorManager).inviteReceived env' th).2.db.threads.lookup last.id = _ at hstored
    rw [lookup_inviteReceived, if_pos ⟨by rw [hsave]; rfl, hid⟩] at hstored
    exact Option.some.inj hstored
  · intro h before env between after hcalls hok
    -- By induction on what has come in since `last` was received, its end first.
    induction between using List.reverseRecOn generalizing after with
    | nil =>
      rw [receive_append]
      change ((_ : ActorManager).inviteReceived env last).2.db.threads.lookup last.id = _
      rw [lookup_inviteReceived, if_pos ⟨by rw [saved_of_inviteReceived hok]; rfl, rfl⟩]
    | append_singleton between call ih =>
      obtain ⟨env', th⟩ := call
      have hstored := ih ((env', th) :: after) (by rw [hcalls]; simp)
      rw [← List.cons_append, ← List.append_assoc, receive_append]
      change ((_ : ActorManager).inviteReceived env' th).2.db.threads.lookup last.id = _
      rw [lookup_inviteReceived]
      split
      · rename_i hnew
        have hsame := h before env between env' th after (by rw [hcalls]; simp) hok
          (Option.isNone_iff_eq_none.mp hnew.1) hnew.2
        rw [hsame]
      · exact hstored

/-! ## Wakes -/

/-- The rows of threads, the rows of members and the membership epochs of two databases are the same. -/
structure SameMembership (d d' : Database) : Prop where
  threads : ∀ threadID, d'.threads.lookup threadID = d.threads.lookup threadID
  members : ∀ r, r ∈ d'.members.rows ↔ r ∈ d.members.rows
  epochs : ∀ threadID, d'.membershipEpoch threadID = d.membershipEpoch threadID

/-- The epoch of a thread is one before it is written. -/
theorem membershipEpoch_insertOrIgnore (d : Database) (members : Table MemberRow _) (threadID T : String) :
    Database.membershipEpoch { d with
      members, membershipEpochs := d.membershipEpochs.insertOrIgnore (threadID, 1) } T =
      d.membershipEpoch T := by
  unfold Database.membershipEpoch
  dsimp only
  rw [Table.lookup_insertOrIgnore]
  cases d.membershipEpochs.lookup T with
  | some row => rfl
  | none =>
    rw [Option.none_or]
    split
    · rfl
    · rename_i hrow
      split at hrow
      · cases hrow
        rfl
      · cases hrow

/-- **When a wake changes nothing**: the node is not a replica of the descriptor, or the row that says it
is an observer since the current epoch is already there (or is not written). -/
theorem wake_idempotent_iff (env : ManagerEnv) (hstored : m.db.threads.lookup th.id = some th) :
    SameMembership m.db (m.inviteReceived env th).2.db ↔
      m.selfDID = "" ∨ m.selfDID ∉ th.replicaDids ∨ th.id = "" ∨ (env.fails .saveThread).isSome ∨
        (env.fails .saveMember).isSome ∨
        ⟨th.id, m.selfDID, .observer, m.joinedEpoch env th.id⟩ ∈ m.db.members.rows := by
  have hthreads (threadID : String) :
      (m.inviteReceived env th).2.db.threads.lookup threadID = m.db.threads.lookup threadID := by
    rw [lookup_inviteReceived]
    split
    · rename_i h
      rw [← h.2, hstored]
    · rfl
  rw [inviteReceived_db] at hthreads ⊢
  by_cases hquiet : m.selfDID = "" ∨ m.selfDID ∉ th.replicaDids ∨ th.id = "" ∨ (env.fails .saveThread).isSome ∨
      (env.fails .saveMember).isSome
  · -- No member row is written.
    have hdb : (invited m env th).members = m.db.members ∧
        (invited m env th).membershipEpochs = m.db.membershipEpochs := by
      rw [invited, selfRow, if_pos hquiet]
      dsimp only
      split <;> exact ⟨rfl, rfl⟩
    refine iff_of_true ⟨hthreads, fun r => by rw [hdb.1], fun T => ?_⟩ (by tauto)
    rw [Database.membershipEpoch, hdb.2]
    rfl
  · have hdb : (invited m env th).members = m.db.members.insertOrReplace
        ⟨th.id, m.selfDID, .observer, m.joinedEpoch env th.id⟩ := by
      rw [invited, selfRow, if_neg hquiet]
      dsimp only
      split <;> rfl
    constructor
    · intro hsame
      have hmem := (hsame.members ⟨th.id, m.selfDID, .observer, m.joinedEpoch env th.id⟩).mp
        (by rw [hdb]; exact Table.mem_insertOrReplace.mpr (.inr rfl))
      tauto
    · intro h
      have hmem : ⟨th.id, m.selfDID, .observer, m.joinedEpoch env th.id⟩ ∈ m.db.members.rows := by tauto
      refine ⟨hthreads, fun r => by rw [hdb]; exact Table.mem_insertOrReplace_of_mem hmem, fun T => ?_⟩
      rw [invited, selfRow, if_neg hquiet]
      dsimp only
      rw [membershipEpoch_insertOrIgnore]
      split <;> rfl

/-! ## A thread that gets an observer -/

namespace Family

open Tendermint.Quartet (did1 did2 did3 key checksum)

/-- Nothing fails. -/
def calm : ManagerEnv := ⟨"u", 1, fun _ => none⟩

/-- A descriptor that the creator has signed. -/
def deed (replicaDids : List String) : Thread :=
  let th : Thread :=
    { id := "t", creatorDid := did1, replicaDids, n := 1, f := 0, epochMs := 1000, createdAt := 1,
      metadata := [("backend", "raft")] }
  (signDescriptor checksum th ⟨did1, key 1⟩).getD th

/-- The thread at first. -/
def older : Thread := deed [did1, did2]

/-- The thread with one more observer. -/
def newer : Thread := deed [did1, did2, did3]

/-- A node that has not been invited. -/
def stranger : ActorManager := ⟨⟨did2, key 2⟩, .empty, .empty⟩

/-- **An old descriptor comes back**: both are signed by the creator, the newer one is received and stored,
and an invitation that was sent before replaces it. -/
theorem old_descriptor_returns : Verified checksum older ∧ Verified checksum newer ∧
    older.replicaDids <+: newer.replicaDids ∧ older ≠ newer ∧
    ((stranger.receive [(calm, older)]).inviteReceived calm newer).1 = .ok () ∧
    (stranger.receive [(calm, older), (calm, newer)]).db.threads.lookup "t" = some newer ∧
    (stranger.receive [(calm, older), (calm, newer), (calm, older)]).db.threads.lookup "t" = some older := by
  refine ⟨?_, ?_, ?_, ?_, ?_, ?_, ?_⟩ <;> decide +kernel

/-- A node that stores the thread, with the given rows of members. -/
def home (id : Identity) (rows : List MemberRow) : ActorManager :=
  let db := { Database.empty with toStore := Store.empty.saveThread newer }
  ⟨id, rows.foldl (fun db r => (db.saveMember r).getD db) db, .empty⟩

/-- **A wake takes roles away and gives them back**: the creator's own row becomes that of an observer,
and a node whose row was removed has one again. -/
theorem wake_rewrites_members :
    (home ⟨did1, key 1⟩ [⟨"t", did1, .admin, 1⟩]).db.threads.lookup "t" = some newer ∧
    (home ⟨did1, key 1⟩ [⟨"t", did1, .admin, 1⟩]).db.members.rows = [⟨"t", did1, .admin, 1⟩] ∧
    ((home ⟨did1, key 1⟩ [⟨"t", did1, .admin, 1⟩]).inviteReceived calm newer).2.db.members.rows =
      [⟨"t", did1, .observer, 1⟩] ∧
    (home ⟨did2, key 2⟩ [⟨"t", did1, .admin, 1⟩]).db.threads.lookup "t" = some newer ∧
    ((home ⟨did2, key 2⟩ [⟨"t", did1, .admin, 1⟩]).inviteReceived calm newer).2.db.members.rows =
      [⟨"t", did1, .admin, 1⟩, ⟨"t", did2, .observer, 1⟩] := by
  refine ⟨?_, ?_, ?_, ?_, ?_⟩ <;> decide +kernel

/-- An observer that is woken up stays what it is. -/
theorem wake_idempotent_observer :
    (home ⟨did2, key 2⟩ [⟨"t", did2, .observer, 1⟩]).db.threads.lookup newer.id = some newer ∧
    SameMembership (home ⟨did2, key 2⟩ [⟨"t", did2, .observer, 1⟩]).db
      ((home ⟨did2, key 2⟩ [⟨"t", did2, .observer, 1⟩]).inviteReceived calm newer).2.db := by
  have hstored : (home ⟨did2, key 2⟩ [⟨"t", did2, .observer, 1⟩]).db.threads.lookup newer.id = some newer := by
    decide +kernel
  refine ⟨hstored, (wake_idempotent_iff calm hstored).mpr ?_⟩
  decide +kernel

end Family

end ActorManager

end MoltMesh

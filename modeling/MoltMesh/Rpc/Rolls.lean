import Mathlib.Data.Set.Basic
import MoltMesh.Lib.Trace
import MoltMesh.Ownership
import MoltMesh.Rpc.Membership

/-!
# The roll of a thread

The operations of `daemon/thread/store_membership.go`, one after another.  Each of them is one
transaction.  Three change the roll of a thread together with its epoch; `SaveMember`, which
`AddThreadReplica` and `InviteReceived` use, leaves the epoch as it is (`epoch_law_iff`).

Only `RemoveMemberWithEpoch` looks whether a voter remains.  The operations that replace a row
may take the vote of the last one away (`keeps_voter_iff`).
-/

namespace MoltMesh

open MoltMesh.Lib Pb

namespace Database

/-- The role of a DID in a thread. -/
def roleOf (d : Database) (threadID did : String) : Option ThreadMemberRole :=
  (d.members.lookup (threadID, did)).map MemberRow.role

/-- The members of a thread with their roles. -/
def roll (d : Database) (threadID : String) : Set (String × ThreadMemberRole) :=
  {p | ∃ r ∈ d.members.rows, r.threadId = threadID ∧ r.did = p.1 ∧ r.role = p.2}

variable {d d' : Database} {T : String}

theorem mem_roll {p : String × ThreadMemberRole} : p ∈ d.roll T ↔ d.roleOf T p.1 = some p.2 := by
  rw [roleOf, Option.map_eq_some_iff]
  constructor
  · rintro ⟨r, hr, hT, hdid, hrole⟩
    exact ⟨r, Table.lookup_eq_some.mpr ⟨hr, Prod.ext hT hdid⟩, hrole⟩
  · rintro ⟨r, hr, hrole⟩
    obtain ⟨hmem, hkey⟩ := Table.lookup_eq_some.mp hr
    exact ⟨r, hmem, (Prod.mk.inj hkey).1, (Prod.mk.inj hkey).2, hrole⟩

theorem roll_eq_iff : d.roll T = d'.roll T ↔ ∀ did, d.roleOf T did = d'.roleOf T did := by
  constructor
  · intro h did
    ext role
    have hmem := Set.ext_iff.mp h (did, role)
    rw [mem_roll, mem_roll] at hmem
    exact hmem
  · intro h
    ext p
    rw [mem_roll, mem_roll, h]

end Database

namespace Rpc

open MemberServer

/-! ## The operations -/

namespace MemberServer

variable (K : MemberServer) (env : MemberEnv)

/-- `SaveMember`. -/
def saveMember (member : MemberRow) : Except String MemberServer :=
  match K.db.saveMember member with
  | none => .error "invalid thread member"
  | some db => match env.fails .saveMember with
    | some err => .error err
    | none => .ok { K with db }

end MemberServer

/-- The operations on the tables of membership. -/
inductive RollOp
  | saveMember (member : MemberRow)
  | saveInvite (threadID invitee : String) (role : ThreadMemberRole) (nonce : List UInt8) (expiresAt : Int)
  | acceptInvite (threadID invitee : String) (nonce : List UInt8)
  | removeMember (threadID did : String)
  | promoteMember (threadID did : String)

/-- An operation with what the environment decides during it. -/
structure RollInput where
  env : MemberEnv
  op : RollOp

/-- One operation. -/
def rollStep (K : MemberServer) (i : RollInput) : Except String Unit × MemberServer :=
  match i.op with
  | .saveMember member => finish K () (saveMember K i.env member)
  | .saveInvite threadID invitee role nonce expiresAt =>
    finish K () (saveInvite K i.env threadID invitee role nonce expiresAt)
  | .acceptInvite threadID invitee nonce => finish K () (acceptInviteWithEpoch K i.env threadID invitee nonce)
  | .removeMember threadID did => finish K () ((removeMemberWithEpoch K i.env threadID did).map fun r => r.2)
  | .promoteMember threadID did => finish K () ((promoteMemberWithEpoch K i.env threadID did).map fun r => r.2.2)

/-- The turns of the operations. -/
abbrev RollTurn := Turn MemberServer RollInput (Except String Unit)

/-- The database with a row of a member and a new epoch. -/
def enrolled (db : Database) (row : MemberRow) : Database :=
  { (advanceMembershipEpoch db row.threadId).2 with members := db.members.insertOrReplace row }

/-- The database without a member and with a new epoch. -/
def struck (db : Database) (threadID did : String) : Database :=
  { (advanceMembershipEpoch db threadID).2 with
    members := db.members.deleteWhere fun r => r.threadId = threadID ∧ r.did = did }

/-- What an operation can do. -/
inductive RollStep (K : MemberServer) (env : MemberEnv) : RollOp → Except String Unit → MemberServer → Prop
  | failed {op : RollOp} {err : String} : RollStep K env op (.error err) K
  | saved {member : MemberRow} {db : Database} (hdb : K.db.saveMember member = some db)
    (hworks : env.fails .saveMember = none) : RollStep K env (.saveMember member) (.ok ()) { K with db }
  | invited {T invitee : String} {role : ThreadMemberRole} {nonce : List UInt8} {expiresAt : Int} :
    RollStep K env (.saveInvite T invitee role nonce expiresAt) (.ok ())
      { K with invites := K.invites.insertOrReplace ⟨T, invitee, role, nonce, expiresAt, 0⟩ }
  | accepted {T invitee : String} {nonce : List UInt8} {row : InviteRow}
    (hrow : K.invites.lookup (T, invitee, nonce) = some row) (hopen : row.acceptedAt = 0)
    (hlater : env.now < row.expiresAt) :
    RollStep K env (.acceptInvite T invitee nonce) (.ok ()) { K with
      db := enrolled K.db ⟨T, invitee, row.role, K.db.membershipEpoch T + 1⟩
      invites := K.invites.insertOrReplace { row with acceptedAt := env.now } }
  | removed {T did : String} {row : MemberRow} (hrow : K.db.members.lookup (T, did) = some row)
    (hmore : votes row.role = true → 1 < (K.db.members.select fun r => r.threadId = T ∧ votes r.role).length) :
    RollStep K env (.removeMember T did) (.ok ()) { K with db := struck K.db T did }
  | promoted {T did : String} {row : MemberRow} (hrow : K.db.members.lookup (T, did) = some row)
    (hrole : row.role = .observer) :
    RollStep K env (.promoteMember T did) (.ok ()) { K with db := enrolled K.db { row with role := .voter } }

/-- **What an operation does.** -/
theorem rollStep_cases (K : MemberServer) (i : RollInput) :
    RollStep K i.env i.op (rollStep K i).1 (rollStep K i).2 := by
  obtain ⟨env, op⟩ := i
  cases op with
  | saveMember member =>
    simp only [rollStep, saveMember]
    cases hdb : K.db.saveMember member with
    | none => exact .failed
    | some db =>
      dsimp only
      cases hworks : env.fails .saveMember with
      | some err => exact .failed
      | none => exact .saved hdb hworks
  | saveInvite T invitee role nonce expiresAt =>
    simp only [rollStep, saveInvite]
    split
    · exact .failed
    · cases env.breaks .saveInvite with
      | some err => exact .failed
      | none => exact .invited
  | acceptInvite T invitee nonce =>
    simp only [rollStep]
    cases haccept : acceptInviteWithEpoch K env T invitee nonce with
    | error err => exact .failed
    | ok K' =>
      obtain ⟨-, -, row, hrow, hopen, hlater⟩ := acceptInviteWithEpoch_eq_ok haccept
      unfold acceptInviteWithEpoch at haccept
      split at haccept
      · cases haccept
      split at haccept
      · cases haccept
      rw [hrow] at haccept
      dsimp only at haccept
      split at haccept
      · cases haccept
      · cases haccept
        exact .accepted hrow hopen hlater
  | removeMember T did =>
    simp only [rollStep, removeMemberWithEpoch]
    split
    · exact .failed
    split
    · exact .failed
    split
    · exact .failed
    rename_i row hrow
    split
    · exact .failed
    rename_i hguard
    refine .removed hrow fun hvotes => ?_
    by_contra hfew
    exact hguard ⟨hvotes, not_lt.mp hfew⟩
  | promoteMember T did =>
    simp only [rollStep, promoteMemberWithEpoch]
    split
    · exact .failed
    split
    · exact .failed
    split
    · exact .failed
    rename_i row hrow
    split
    · exact .failed
    rename_i hrole
    have hT : row.threadId = T := (Prod.mk.inj (Table.lookup_eq_some.mp hrow).2).1
    subst hT
    exact .promoted hrow (not_not.mp hrole)

/-! ## Roles and epochs -/

section Roles

variable {db db' : Database} {row : MemberRow} {T did : String}

theorem saveMember_eq_some (h : db.saveMember row = some db') :
    db'.members = db.members.insertOrReplace row ∧
      db'.membershipEpochs = db.membershipEpochs.insertOrIgnore (row.threadId, 1) := by
  unfold Database.saveMember at h
  split at h
  · cases h
  · cases h
    exact ⟨rfl, rfl⟩

/-- The epoch of a thread is one before it is written, and `SaveMember` writes that. -/
theorem membershipEpoch_saveMember (h : db.saveMember row = some db') (T : String) :
    db'.membershipEpoch T = db.membershipEpoch T := by
  rw [← ActorManager.membershipEpoch_insertOrIgnore db db'.members row.threadId T]
  simp only [Database.membershipEpoch, (saveMember_eq_some h).2]

theorem membershipEpoch_advance (db : Database) (T T' : String) :
    (advanceMembershipEpoch db T).2.membershipEpoch T' =
      if T' = T then db.membershipEpoch T + 1 else db.membershipEpoch T' := by
  unfold advanceMembershipEpoch Database.membershipEpoch
  dsimp only
  split_ifs with hT
  · subst hT
    have hself (n : Nat) := Table.lookup_insertOrReplace_self db.membershipEpochs (T', n)
    rw [hself]
  · rw [Table.lookup_insertOrReplace_of_ne hT]

theorem roleOf_insertOrReplace (h : db'.members = db.members.insertOrReplace row) (T did : String) :
    db'.roleOf T did = if row.threadId = T ∧ row.did = did then some row.role else db.roleOf T did := by
  rw [Database.roleOf, h]
  split_ifs with hkey
  · obtain ⟨rfl, rfl⟩ := hkey
    exact congrArg (Option.map MemberRow.role) (Table.lookup_insertOrReplace_self db.members row)
  · rw [Table.lookup_insertOrReplace_of_ne, Database.roleOf]
    intro heq
    exact hkey ⟨(Prod.mk.inj heq).1.symm, (Prod.mk.inj heq).2.symm⟩

theorem roleOf_struck (db : Database) (T T' did did' : String) :
    (struck db T did).roleOf T' did' = if T' = T ∧ did' = did then none else db.roleOf T' did' := by
  rw [Database.roleOf, struck, Table.lookup_deleteWhere, Database.roleOf]
  cases hrow : db.members.lookup (T', did') with
  | none => simp
  | some r =>
    obtain ⟨rfl, rfl⟩ := Prod.mk.inj (Table.lookup_eq_some.mp hrow).2
    split_ifs with hkey
    · rw [Option.filter_some, if_neg (by simp [hkey])]
      rfl
    · rw [Option.filter_some, if_pos]
      rw [Bool.not_eq_true', decide_eq_false_iff_not]
      exact hkey

/-- The roll of a thread is not concerned by the rows of others. -/
theorem roll_enrolled_of_ne (h : row.threadId ≠ T) : (enrolled db row).roll T = db.roll T := by
  rw [Database.roll_eq_iff]
  intro did
  rw [roleOf_insertOrReplace rfl, if_neg fun hkey => h hkey.1]

theorem roll_struck_of_ne {T' : String} (h : T' ≠ T) : (struck db T did).roll T' = db.roll T' := by
  rw [Database.roll_eq_iff]
  intro did'
  rw [roleOf_struck, if_neg fun hkey => h hkey.1]

theorem membershipEpoch_enrolled : (enrolled db row).membershipEpoch T =
    if T = row.threadId then db.membershipEpoch row.threadId + 1 else db.membershipEpoch T :=
  membershipEpoch_advance db row.threadId T

theorem membershipEpoch_struck {T' : String} : (struck db T did).membershipEpoch T' =
    if T' = T then db.membershipEpoch T + 1 else db.membershipEpoch T' :=
  membershipEpoch_advance db T T'

end Roles

/-! ## The law of epochs -/

/-- An operation that changes the roll of a thread raises its epoch, and one that fails changes neither. -/
structure EpochLaw (T : String) (t : RollTurn) : Prop where
  change : t.after.db.roll T ≠ t.before.db.roll T → t.before.db.membershipEpoch T < t.after.db.membershipEpoch T
  failure : ∀ err, t.output = .error err →
    t.after.db.roll T = t.before.db.roll T ∧ t.after.db.membershipEpoch T = t.before.db.membershipEpoch T

/-- A `SaveMember` that does not fail gives a DID a role in the thread that it does not have. -/
def GivesRole (T : String) (K : MemberServer) (i : RollInput) : Prop :=
  ∃ member, i.op = .saveMember member ∧ member.threadId = T ∧ (K.db.saveMember member).isSome = true ∧
    i.env.fails .saveMember = none ∧ K.db.roleOf T member.did ≠ some member.role

variable {K : MemberServer} {T : String}

theorem rollStep_saveMember {env : MemberEnv} {member : MemberRow} {db : Database}
    (hdb : K.db.saveMember member = some db) (hworks : env.fails .saveMember = none) :
    rollStep K ⟨env, .saveMember member⟩ = (.ok (), { K with db }) := by
  simp only [rollStep, saveMember, hdb, hworks]
  rfl

theorem epochLaw_of_same {t : RollTurn} (hroll : t.after.db.roll T = t.before.db.roll T)
    (hok : ∀ err, t.output ≠ .error err) : EpochLaw T t :=
  ⟨fun h => absurd hroll h, fun err h => absurd h (hok err)⟩

theorem epochLaw_of_advance {t : RollTurn} (T' : String)
    (hepoch : t.after.db.membershipEpoch T' = t.before.db.membershipEpoch T' + 1)
    (hother : T ≠ T' → t.after.db.roll T = t.before.db.roll T) (hok : ∀ err, t.output ≠ .error err) :
    EpochLaw T t := by
  refine ⟨fun h => ?_, fun err h => absurd h (hok err)⟩
  by_cases hT : T = T'
  · rw [hT, hepoch]
    exact Nat.lt_succ_self _
  · exact absurd (hother hT) h

theorem epochLaw_turn_iff (i : RollInput) : EpochLaw T (turn rollStep K i) ↔ ¬GivesRole T K i := by
  constructor
  · rintro hlaw ⟨member, hop, rfl, hsome, hworks, hrole⟩
    obtain ⟨env, op⟩ := i
    obtain ⟨db, hdb⟩ := Option.isSome_iff_exists.mp hsome
    cases hop
    have hchange := hlaw.change
    simp only [turn, rollStep_saveMember hdb hworks, membershipEpoch_saveMember hdb, lt_irrefl, imp_false, not_not,
      Database.roll_eq_iff, roleOf_insertOrReplace (saveMember_eq_some hdb).1] at hchange
    have hgiven := hchange member.did
    rw [if_pos ⟨trivial, rfl⟩] at hgiven
    exact hrole hgiven.symm
  · intro hkeeps
    have hstep := rollStep_cases K i
    generalize hop : i.op = op at hstep
    generalize hout : (rollStep K i).1 = out at hstep
    generalize hnext : (rollStep K i).2 = K' at hstep
    have houtput : (turn rollStep K i).output = out := hout
    have hafter : (turn rollStep K i).after = K' := hnext
    have hbefore : (turn rollStep K i).before = K := rfl
    cases hstep with
    | failed =>
      refine ⟨fun h => absurd ?_ h, fun _ _ => ?_⟩ <;> rw [hafter, hbefore]
      exact ⟨rfl, rfl⟩
    | saved hdb hworks =>
      rename_i member db
      refine epochLaw_of_same ?_ (by simp [houtput])
      rw [hafter, hbefore, Database.roll_eq_iff]
      intro did
      rw [roleOf_insertOrReplace (saveMember_eq_some hdb).1]
      split_ifs with hkey
      · -- The role is the one that is there.
        obtain ⟨rfl, rfl⟩ := hkey
        by_contra hne
        exact hkeeps ⟨member, hop, rfl, by rw [hdb]; rfl, hworks, Ne.symm hne⟩
      · rfl
    | invited => exact epochLaw_of_same (by rw [hafter]; rfl) (by simp [houtput])
    | accepted hrow hopen hlater =>
      rename_i T' invitee nonce row
      refine epochLaw_of_advance T' ?_ (fun hT => ?_) (by simp [houtput]) <;> rw [hafter, hbefore]
      · exact membershipEpoch_enrolled.trans (if_pos rfl)
      · exact roll_enrolled_of_ne (Ne.symm hT)
    | removed hrow hmore =>
      rename_i T' did row
      refine epochLaw_of_advance T' ?_ (fun hT => ?_) (by simp [houtput]) <;> rw [hafter, hbefore]
      · exact membershipEpoch_struck.trans (if_pos rfl)
      · exact roll_struck_of_ne hT
    | promoted hrow hrole =>
      rename_i T' did row
      refine epochLaw_of_advance row.threadId ?_ (fun hT => ?_) (by simp [houtput]) <;> rw [hafter, hbefore]
      · exact membershipEpoch_enrolled.trans (if_pos rfl)
      · exact roll_enrolled_of_ne (Ne.symm hT)

/-- **When epochs follow the roll**: in a sequence of operations each one that changes the roll of a thread
raises its epoch, and each one that fails changes neither, exactly if no `SaveMember` gives a role. -/
theorem epoch_law_iff (T : String) (K : MemberServer) (is : List RollInput) :
    (∀ t ∈ turns rollStep K is, EpochLaw T t) ↔ ∀ t ∈ turns rollStep K is, ¬GivesRole T t.before t.input := by
  refine forall₂_congr fun t ht => ?_
  obtain ⟨K', i, rfl⟩ := exists_of_mem_turns ht
  exact epochLaw_turn_iff i

open Tendermint.Quartet (did3) in
/-- **An observer without an epoch**: the creator adds a replica, which is a member at once, in the epoch
before it was one. -/
theorem observer_keeps_epoch :
    (addThreadReplica Lodger.home.toServer (faultless 1).toEnv [] ⟨"t", did3⟩).2.db.members.rows =
      (rollStep Lodger.home ⟨faultless 1, .saveMember ⟨"t", did3, .observer, 1⟩⟩).2.db.members.rows ∧
    Lodger.home.db.roleOf "t" did3 = none ∧
    (rollStep Lodger.home ⟨faultless 1, .saveMember ⟨"t", did3, .observer, 1⟩⟩).2.db.roleOf "t" did3 = some .observer ∧
    (rollStep Lodger.home ⟨faultless 1, .saveMember ⟨"t", did3, .observer, 1⟩⟩).2.db.membershipEpoch "t" =
      Lodger.home.db.membershipEpoch "t" ∧
    ¬EpochLaw "t" (turn rollStep Lodger.home ⟨faultless 1, .saveMember ⟨"t", did3, .observer, 1⟩⟩) := by
  refine ⟨by decide +kernel, by decide +kernel, by decide +kernel, by decide +kernel, fun hlaw => ?_⟩
  exact (epochLaw_turn_iff _).mp hlaw ⟨_, rfl, rfl, by decide +kernel, rfl, by decide +kernel⟩

/-! ## The operations of a node -/

/-- A daemon: the RPC server and the thread manager on one database. -/
structure Host extends MemberServer where
  actors : Table Thread Thread.id

namespace Host

/-- The thread manager of a daemon. -/
def manager (H : Host) : ActorManager := ⟨⟨H.did, H.privateKey⟩, H.db, H.actors⟩

/-- The daemon after a call of its thread manager. -/
def withManager (H : Host) (m : ActorManager) : Host := { H with db := m.db, actors := m.actors }

end Host

/-- What happens to the members on a node. -/
inductive HostOp
  | inviteReceived (env : ManagerEnv) (th : Thread)
  /-- Up to where the call waits, which writes nothing. -/
  | addThreadReplica (env : Env) (authorization : List String) (req : ThreadReplicaRequest)
  | roll (i : RollInput)

/-- One operation of a node. -/
def hostStep (H : Host) : HostOp → Except String Unit × Host
  | .inviteReceived env th =>
    let (result, m) := H.manager.inviteReceived env th
    (result, H.withManager m)
  | .addThreadReplica env authorization req =>
    let (result, S) := addThreadReplica H.toServer env authorization req
    (result.map fun _ => (), { H with toServer := S })
  | .roll i =>
    let (result, K) := rollStep H.toMemberServer i
    (result, { H with toMemberServer := K })

/-- The epoch that `AddThreadReplica` writes. -/
def observerEpoch (S : Server) (env : Env) (threadID : String) : Nat :=
  match env.fails .membershipEpoch with
  | some _ => 1
  | none => if 0 < S.db.membershipEpoch threadID then S.db.membershipEpoch threadID else 1

/-- The row that `AddThreadReplica` writes, if it writes one. -/
def observerRow (S : Server) (env : Env) (authorization : List String) (req : ThreadReplicaRequest) :
    Option MemberRow :=
  match (addThreadReplica S env authorization req).1 with
  | .ok none => some ⟨req.threadId, req.replicaDid, .observer, observerEpoch S env req.threadId⟩
  | _ => none

/-- The row of a member that an operation writes, if it writes one. -/
def written (H : Host) : HostOp → Option MemberRow
  | .inviteReceived env th => ActorManager.selfRow H.manager env th
  | .addThreadReplica env authorization req => observerRow H.toServer env authorization req
  | .roll i => match i.op, (rollStep H.toMemberServer i).1 with
    | .saveMember member, .ok () => some member
    | .acceptInvite T invitee nonce, .ok () => (H.invites.lookup (T, invitee, nonce)).map fun row =>
      ⟨T, invitee, row.role, H.db.membershipEpoch T + 1⟩
    | .promoteMember T did, .ok () => (H.db.members.lookup (T, did)).map fun row => { row with role := .voter }
    | _, _ => none

/-- An entry that is appended leaves the members and the epochs alone. -/
theorem managerAppendEntry_frame (S : Server) (env : Env) (threadID : String) (entry : ThreadEntry) :
    (managerAppendEntry S env threadID entry).2.db.members = S.db.members ∧
      ∀ T, (managerAppendEntry S env threadID entry).2.db.membershipEpoch T = S.db.membershipEpoch T := by
  unfold managerAppendEntry
  repeat' split
  all_goals exact ⟨rfl, fun _ => rfl⟩

theorem recordObserver_cases (S : Server) (env : Env) (threadID replicaDid : String) :
    (∃ err, recordObserver S env threadID replicaDid = (.error err, S)) ∨
      ∃ db, recordObserver S env threadID replicaDid = (.ok (), { S with db }) ∧
        S.db.saveMember ⟨threadID, replicaDid, .observer, observerEpoch S env threadID⟩ = some db := by
  have heq : recordObserver S env threadID replicaDid = match env.fails .saveMember with
      | some err => (.error ("record observer membership: " ++ err), S)
      | none => match S.db.saveMember ⟨threadID, replicaDid, .observer, observerEpoch S env threadID⟩ with
        | none => (.error "record observer membership: invalid thread member", S)
        | some db => (.ok (), { S with db }) := rfl
  rw [heq]
  cases env.fails .saveMember with
  | some err => exact .inl ⟨_, rfl⟩
  | none =>
    cases S.db.saveMember ⟨threadID, replicaDid, .observer, observerEpoch S env threadID⟩ with
    | none => exact .inl ⟨_, rfl⟩
    | some db => exact .inr ⟨db, rfl, rfl⟩

/-- `AddThreadReplica` writes the row of the observer and no other. -/
theorem members_addThreadReplica (S : Server) (env : Env) (authorization : List String) (req : ThreadReplicaRequest) :
    (addThreadReplica S env authorization req).2.db.members =
      (observerRow S env authorization req).elim S.db.members S.db.members.insertOrReplace := by
  unfold observerRow
  generalize hcall : addThreadReplica S env authorization req = call
  unfold addThreadReplica at hcall
  split at hcall
  · subst hcall
    rfl
  split at hcall
  · subst hcall
    rfl
  rename_i th hth
  have hid := (getThread_eq_ok hth).2
  have hdb := @scopedOwner_db S env authorization
  generalize scopedOwner S env authorization = x at hcall hdb
  obtain ⟨_ | owner, S₁⟩ := x
  · subst hcall
    exact congrArg Database.members hdb
  dsimp only at hcall hdb
  split at hcall
  · subst hcall
    exact congrArg Database.members hdb
  split at hcall
  · subst hcall
    exact congrArg Database.members hdb
  obtain ⟨hmembers, hepoch⟩ :=
    managerAppendEntry_frame S₁ env th.id (observerEntry env (authorOf S₁ owner) req.replicaDid)
  generalize managerAppendEntry S₁ env th.id (observerEntry env (authorOf S₁ owner) req.replicaDid) = x
    at hcall hmembers hepoch
  rw [hdb] at hmembers hepoch
  obtain ⟨_ | _, S₂⟩ := x
  · subst hcall
    exact hmembers
  dsimp only at hcall hmembers hepoch
  rcases recordObserver_cases S₂ env th.id req.replicaDid with ⟨err, hrecord⟩ | ⟨db, hrecord, hsave⟩
  · rw [hrecord] at hcall
    subst hcall
    exact hmembers
  · rw [hrecord] at hcall
    subst hcall
    have hsame : observerEpoch S₂ env th.id = observerEpoch S env th.id := by
      unfold observerEpoch
      rw [hepoch]
    dsimp only
    rw [(saveMember_eq_some hsave).1, hmembers, hsame, hid]
    rfl

/-! ## The last voter -/

/-- A thread has a member that votes. -/
def HasVoter (d : Database) (T : String) : Prop := ∃ r ∈ d.members.rows, r.threadId = T ∧ votes r.role = true

instance (d : Database) (T : String) : Decidable (HasVoter d T) :=
  inferInstanceAs (Decidable (∃ r ∈ d.members.rows, _))

/-- An operation writes no row without a vote over the only one of the thread that has one. -/
def SparesVoter (T : String) (H : Host) (op : HostOp) : Prop :=
  ∀ r ∈ written H op, r.threadId = T → votes r.role = false →
    ∃ r' ∈ H.db.members.rows, r'.threadId = T ∧ votes r'.role = true ∧ r'.did ≠ r.did

instance (T : String) (H : Host) (op : HostOp) : Decidable (SparesVoter T H op) :=
  inferInstanceAs (Decidable (∀ r ∈ written H op, _))

theorem hasVoter_insertOrReplace {d d' : Database} {r : MemberRow}
    (h : d'.members = d.members.insertOrReplace r) (hvoter : HasVoter d T) :
    HasVoter d' T ↔ (r.threadId = T → votes r.role = false →
      ∃ r' ∈ d.members.rows, r'.threadId = T ∧ votes r'.role = true ∧ r'.did ≠ r.did) := by
  unfold HasVoter
  simp only [h, Table.mem_insertOrReplace]
  constructor
  · rintro ⟨r', ⟨hmem, hkey⟩ | rfl, hT', hvotes⟩ hT hnot
    · exact ⟨r', hmem, hT', hvotes, fun hdid => hkey (Prod.ext (hT'.trans hT.symm) hdid)⟩
    · rw [hvotes] at hnot
      cases hnot
  · intro hspares
    by_cases hT : r.threadId = T
    · cases hvotes : votes r.role with
      | true => exact ⟨r, .inr rfl, hT, hvotes⟩
      | false =>
        obtain ⟨r', hmem, hT', hvotes', hdid⟩ := hspares hT hvotes
        exact ⟨r', .inl ⟨hmem, fun hkey => hdid (Prod.mk.inj hkey).2⟩, hT', hvotes'⟩
    · obtain ⟨r', hmem, hT', hvotes'⟩ := hvoter
      exact ⟨r', .inl ⟨hmem, fun hkey => hT ((Prod.mk.inj hkey).1.symm.trans hT')⟩, hT', hvotes'⟩

/-- `RemoveMemberWithEpoch` leaves a voter: it counts them. -/
theorem hasVoter_struck {d : Database} {T' did : String} {row : MemberRow}
    (hrow : d.members.lookup (T', did) = some row)
    (hmore : votes row.role = true → 1 < (d.members.select fun r => r.threadId = T' ∧ votes r.role).length)
    (hvoter : HasVoter d T) : HasVoter (struck d T' did) T := by
  obtain ⟨hmem, hkey⟩ := Table.lookup_eq_some.mp hrow
  -- A voter other than the one that is removed.
  obtain ⟨r, hr, hT, hvotes, hne⟩ : ∃ r ∈ d.members.rows, r.threadId = T ∧ votes r.role = true ∧ r ≠ row := by
    by_contra hnone
    push Not at hnone
    obtain ⟨r, hr, rfl, hvotes⟩ := hvoter
    have hlast := hnone r hr rfl hvotes
    subst hlast
    obtain rfl : r.threadId = T' := (Prod.mk.inj hkey).1
    have hsub : (d.members.select fun r' => r'.threadId = r.threadId ∧ votes r'.role) ⊆ [r] := by
      intro r' hr'
      rw [Table.mem_select, decide_eq_true_eq] at hr'
      exact List.mem_singleton.mpr (hnone r' hr'.1 hr'.2.1 hr'.2.2)
    have hnodup := (Table.nodup_map_select d.members fun r' => r'.threadId = r.threadId ∧ votes r'.role).of_map
    have hlength := (hnodup.subperm hsub).length_le
    exact absurd (hmore hvotes) (not_lt.mpr hlength)
  refine ⟨r, Table.mem_deleteWhere.mpr ⟨hr, decide_eq_false fun hsame => hne ?_⟩, hT, hvotes⟩
  exact Table.eq_of_key_eq hr hmem ((Prod.ext hsame.1 hsame.2).trans hkey.symm)

/-- A voter remains exactly if it is spared. -/
theorem hasVoter_hostStep {H : Host} (op : HostOp) (hvoter : HasVoter H.db T) :
    HasVoter (hostStep H op).2.db T ↔ SparesVoter T H op := by
  have hwritten {r : MemberRow} (hr : written H op = some r)
      (hmembers : (hostStep H op).2.db.members = H.db.members.insertOrReplace r) :
      HasVoter (hostStep H op).2.db T ↔ SparesVoter T H op := by
    rw [hasVoter_insertOrReplace hmembers hvoter, SparesVoter, hr]
    simp only [Option.mem_some_iff, forall_eq']
  have hspared (hnone : written H op = none) : SparesVoter T H op := by
    intro r hr
    rw [hnone] at hr
    cases hr
  have hsame (hnone : written H op = none) (hmembers : (hostStep H op).2.db.members = H.db.members) :
      HasVoter (hostStep H op).2.db T ↔ SparesVoter T H op := by
    refine iff_of_true ?_ (hspared hnone)
    rw [HasVoter, hmembers]
    exact hvoter
  cases op with
  | inviteReceived env th =>
    have hdb : (hostStep H (.inviteReceived env th)).2.db = ActorManager.invited H.manager env th :=
      ActorManager.inviteReceived_db
    cases hself : ActorManager.selfRow H.manager env th with
    | none =>
      refine hsame hself ?_
      rw [hdb, ActorManager.invited, hself]
      dsimp only
      split <;> rfl
    | some r =>
      refine hwritten hself ?_
      rw [hdb, ActorManager.invited, hself]
      dsimp only
      split <;> rfl
  | addThreadReplica env authorization req =>
    have hmembers := members_addThreadReplica H.toServer env authorization req
    cases hrow : observerRow H.toServer env authorization req with
    | none =>
      rw [hrow] at hmembers
      exact hsame hrow hmembers
    | some r =>
      rw [hrow] at hmembers
      exact hwritten hrow hmembers
  | roll i =>
    have hstep := rollStep_cases H.toMemberServer i
    have hdb : (hostStep H (.roll i)).2.db = (rollStep H.toMemberServer i).2.db := rfl
    obtain ⟨env, op⟩ := i
    generalize hout : (rollStep H.toMemberServer ⟨env, op⟩).1 = out at hstep
    generalize hnext : (rollStep H.toMemberServer ⟨env, op⟩).2 = K' at hstep hdb
    cases hstep with
    | failed =>
      refine hsame ?_ (by rw [hdb])
      simp only [written, hout]
    | saved hmember hworks =>
      rename_i member db
      refine hwritten (r := member) (by simp only [written, hout]) ?_
      rw [hdb]
      exact (saveMember_eq_some hmember).1
    | invited => exact hsame (by simp only [written]) (by rw [hdb])
    | accepted hrow hopen hlater => exact hwritten (by simp only [written, hout, hrow]; rfl) (by rw [hdb]; rfl)
    | removed hrow hmore =>
      refine iff_of_true ?_ (hspared (by simp only [written]))
      rw [hdb]
      exact hasVoter_struck hrow hmore hvoter
    | promoted hrow hrole => exact hwritten (by simp only [written, hout, hrow]; rfl) (by rw [hdb]; rfl)

/-- The creator of a thread is its first voter. -/
theorem hasVoter_of_build {C : Ed25519} {m m' : ActorManager} {env : ManagerEnv} {req : Option SignedRequest}
    {th : Thread} (h : m.buildAndPersistThread C env req = some (.ok th, m')) : HasVoter m'.db th.id := by
  unfold ActorManager.buildAndPersistThread at h
  split at h
  · cases h
  · cases h
  split at h
  · cases h
  split at h
  · cases h
  · rename_i hsave
    cases h
    obtain ⟨-, hdb⟩ := ActorManager.saveMember_eq_ok hsave
    refine ⟨⟨th.id, th.creatorDid, .admin, 1⟩, ?_, rfl, rfl⟩
    rw [(saveMember_eq_some hdb).1]
    exact Table.mem_insertOrReplace.mpr (.inr rfl)

/-- **When a thread keeps a voter**: after `buildAndPersistThread` there is at every moment a member that
votes, exactly if no operation writes a row without a vote over the only one that has one. -/
theorem keeps_voter_iff {C : Ed25519} {H : Host} {env : ManagerEnv} {req : Option SignedRequest} {th : Thread}
    {m : ActorManager} (h : H.manager.buildAndPersistThread C env req = some (.ok th, m)) (ops : List HostOp) :
    (∀ H' ∈ moments hostStep (H.withManager m) ops, HasVoter H'.db th.id) ↔
      ∀ t ∈ turns hostStep (H.withManager m) ops, SparesVoter th.id t.before t.input :=
  invariant_iff (fun _ op hvoter => hasVoter_hostStep op hvoter) (hasVoter_of_build h)

/-! A thread on the node of its creator. -/
namespace Cottage

open Tendermint.Quartet (did1 did2 did3 key checksum)
open ActorManager.Family (calm)

/-- The node of the first agent. -/
def cottage : Host where
  did := did1
  sessions := ⟨.empty⟩
  db := .empty
  outbox := []
  privateKey := key 1
  invites := .empty
  keyEnvelopes := .empty
  recoveryKeyEnvelopes := .empty
  actors := .empty

/-- A Raft thread with the second agent. -/
def request : SignedRequest where
  replicaDids := [did2]
  f := 0
  epochMs := 1000
  metadata := [("backend", "raft")]
  threadId := ""
  creatorDid := ""
  creatorSignature := []
  createdAt := 0

/-- What is checked of the node after the thread has been created. -/
def checked (p : Thread → Host → Bool) : Bool :=
  match cottage.manager.buildAndPersistThread checksum calm (some request) with
  | some (.ok th, m) => p th (cottage.withManager m)
  | _ => false

theorem exists_of_checked {p : Thread → Host → Bool} (h : checked p = true) :
    ∃ th m, cottage.manager.buildAndPersistThread checksum calm (some request) = some (.ok th, m) ∧
      p th (cottage.withManager m) = true := by
  unfold checked at h
  split at h
  · rename_i th m heq
    exact ⟨th, m, heq, h⟩
  · cases h

/-- **The last voter is lost**: the node of the creator is woken up for its own thread. -/
theorem last_voter_lost :
    ∃ th m, cottage.manager.buildAndPersistThread checksum calm (some request) = some (.ok th, m) ∧
      ¬HasVoter (hostStep (cottage.withManager m) (.inviteReceived calm th)).2.db th.id := by
  obtain ⟨th, m, heq, hlost⟩ := exists_of_checked
    (p := fun th H => decide ¬HasVoter (hostStep H (.inviteReceived calm th)).2.db th.id) (by decide +kernel)
  exact ⟨th, m, heq, of_decide_eq_true hlost⟩

/-- An observer is added, and the creator is to be removed. -/
def upkeep (th : Thread) : List HostOp :=
  [.addThreadReplica (faultless 1).toEnv [] ⟨th.id, did3⟩, .roll ⟨faultless 1, .removeMember th.id did1⟩]

end Cottage

open Cottage Tendermint.Quartet ActorManager.Family in
theorem keeps_voter_cottage :
    ∃ th m, cottage.manager.buildAndPersistThread checksum calm (some request) = some (.ok th, m) ∧
      ∀ H' ∈ moments hostStep (cottage.withManager m) (upkeep th), HasVoter H'.db th.id := by
  obtain ⟨th, m, heq, hspares⟩ := exists_of_checked (p := fun th H =>
    decide (∀ t ∈ turns hostStep H (upkeep th), SparesVoter th.id t.before t.input)) (by decide +kernel)
  exact ⟨th, m, heq, (keeps_voter_iff heq (upkeep th)).mpr (of_decide_eq_true hspares)⟩

end Rpc

end MoltMesh

import Mathlib.Data.Finset.Image
import MoltMesh.Raft.Descriptors
import MoltMesh.Rpc.Rolls

/-!
# Voters in the table and in consensus

`PromoteThreadMember` and `RemoveThreadMember` change the voters of a Raft thread first and the
table of members afterwards; `LeaveThread` changes the table only.  Whether a change that has
been proposed is committed by the time the call returns is up to consensus, and so is what the
call is told about it.  `consistency_kept_iff` says for which of these decisions the table and
the voters still go together.
-/

namespace MoltMesh.Rpc

open MoltMesh.Lib Pb

variable {add : Bool} {db : Database} {d : String}

/-! ## The calls -/

/-- What the environment decides during one call, with whether the change it proposes is committed before
it returns. -/
structure VoterEnv extends MemberEnv where
  committed : Bool

/-- The server of a node with the committed voters of its Raft threads. -/
structure VoterServer extends MemberServer where
  voters : String → Finset String

/-- The voters after a change. -/
def amendVoters (V : Finset String) (did : String) (add : Bool) : Finset String :=
  if add then insert did V else V.erase did

/-- The change of the voters is that of the configuration, if no two of its numbers have the same DID. -/
theorem image_amend {V : Finset Nat} {id : Nat} {didOf : Nat → String}
    (hinj : Set.InjOn didOf ↑(insert id V)) (add : Bool) :
    (Raft.amend V (if add then .addNode id else .removeNode id)).image didOf =
      amendVoters (V.image didOf) (didOf id) add := by
  cases add with
  | true => exact Finset.image_insert didOf id V
  | false =>
    change (V.erase id).image didOf = (V.image didOf).erase (didOf id)
    ext did
    simp only [Finset.mem_image, Finset.mem_erase]
    constructor
    · rintro ⟨i, ⟨hne, hi⟩, rfl⟩
      refine ⟨fun heq => hne (hinj ?_ ?_ heq), i, hi, rfl⟩
      · exact Finset.mem_coe.mpr (Finset.mem_insert_of_mem hi)
      · exact Finset.mem_coe.mpr (Finset.mem_insert_self id V)
    · rintro ⟨hne, i, hi, rfl⟩
      exact ⟨i, ⟨fun heq => hne (heq ▸ rfl), hi⟩, rfl⟩

/-- A change that a replica proposes for a DID changes the voters by that DID, once it is in the
configuration. -/
theorem image_amend_of_proposed {env : Raft.Env} {e : Raft.Backend} {did token : String}
    {change : Raftpb.ConfChange} {id : Nat} {V : Finset Nat} {didOf : Nat → String}
    (hproposed : (Raft.beginVoterChange env e did add).trace = e.trace ++ [.proposeConfChange change token])
    (hid : e.peerIDs.lookup did = some (did, id)) (hdid : didOf id = did) (hinj : Set.InjOn didOf ↑(insert id V)) :
    (Raft.amend V change).image didOf = amendVoters (V.image didOf) did add := by
  have hquiet {l : List Raft.Effect} (h : l = l ++ [.proposeConfChange change token]) : False := by
    have hlength := congrArg List.length h
    rw [List.length_append, List.length_singleton] at hlength
    omega
  unfold Raft.beginVoterChange at hproposed
  split at hproposed
  · exact (hquiet hproposed).elim
  rw [hid] at hproposed
  dsimp only at hproposed
  split at hproposed
  · exact (hquiet hproposed).elim
  · have heffect := List.singleton_inj.mp (List.append_cancel_left hproposed)
    cases heffect
    rw [image_amend hinj, hdid]

/-- `LeaveThread`; the result is the new epoch. -/
def MemberServer.leaveThread (K : MemberServer) (env : MemberEnv) (authorization : List String) (threadID : String) :
    Except String Nat × MemberServer :=
  if threadID = "" then (.error "thread id required", K)
  else
    let (agent, sessions) := K.sessions.authenticate env.now (bearerToken authorization)
    let K := { K with sessions }
    match agent with
    | .error err => (.error err, K)
    | .ok owner => match K.removeMemberWithEpoch env threadID owner with
      | .error err => (.error err, K)
      | .ok (epoch, K) => (.ok epoch, K)

namespace VoterServer

open MemberServer (votes authorizeCreator removeMemberWithEpoch finishPromotion verifyCatchupProof)

variable (C : Ed25519) (R : VoterServer) (env : VoterEnv) (authorization : List String)

/-- `ProposeVoterChange`, with what becomes of the change. -/
def proposeVoterChange (threadID did : String) (add : Bool) : Except String Unit × VoterServer :=
  let (result, K) := R.toMemberServer.proposeVoterChange env.toMemberEnv threadID did add
  let voters := if env.committed then
    Function.update R.voters threadID (amendVoters (R.voters threadID) did add) else R.voters
  (result, ⟨K, voters⟩)

/-- `RemoveThreadMember`, with the voters. -/
def removeThreadMember (req : MemberServer.RemoveThreadMemberRequest) : Except String Nat × VoterServer :=
  if req.threadId = "" ∨ req.memberDid = "" then (.error "thread_id and member_did are required", R)
  else match authorizeCreator R.toMemberServer env.toMemberEnv authorization req.threadId
      "only thread creator may remove members" with
    | (.error err, K) => (.error err, ⟨K, R.voters⟩)
    | (.ok _, K) =>
      let R : VoterServer := ⟨K, R.voters⟩
      match env.fails .listMembers with
      | some err => (.error err, R)
      | none =>
        let (result, R) :=
          if (R.db.listMembers req.threadId).any fun m => m.did = req.memberDid ∧ votes m.role then
            R.proposeVoterChange env req.threadId req.memberDid false
          else (.ok (), R)
        match result with
        | .error err => (.error ("commit voter removal: " ++ err), R)
        | .ok () => match removeMemberWithEpoch R.toMemberServer env.toMemberEnv req.threadId req.memberDid with
          | .error err => (.error err, R)
          | .ok (epoch, K) => (.ok epoch, ⟨K, R.voters⟩)

/-- `PromoteThreadMember`, with the voters. -/
def promoteThreadMember (req : MemberServer.PromoteThreadMemberRequest) :
    Option (Except String (MemberRow × Nat) × VoterServer) :=
  match req.catchupProof with
  | none => some (.error "thread_id, member_did, and catchup_proof are required", R)
  | some raw =>
    if req.threadId = "" ∨ req.memberDid = "" then
      some (.error "thread_id, member_did, and catchup_proof are required", R)
    else match authorizeCreator R.toMemberServer env.toMemberEnv authorization req.threadId
        "only thread creator may promote members" with
      | (.error err, K) => some (.error err, ⟨K, R.voters⟩)
      | (.ok _, K) =>
        let R : VoterServer := ⟨K, R.voters⟩
        match env.fails .listMembers with
        | some err => some (.error err, R)
        | none =>
          if ¬(R.db.listMembers req.threadId).any fun m => m.did = req.memberDid ∧ m.role = .observer then
            some (.error "only an existing observer may be promoted", R)
          else match verifyCatchupProof C R.toMemberServer env.toMemberEnv req.threadId req.memberDid raw with
            | none => none
            | some (.error err) => some (.error err, R)
            | some (.ok ()) => match R.proposeVoterChange env req.threadId req.memberDid true with
              | (.error err, R) => some (.error ("commit voter promotion: " ++ err), R)
              | (.ok (), R) =>
                let (result, K) := finishPromotion R.toMemberServer env.toMemberEnv req.threadId req.memberDid
                some (result, ⟨K, R.voters⟩)

/-- Without the voters it is the call as it was. -/
theorem removeThreadMember_eq (req : MemberServer.RemoveThreadMemberRequest) :
    R.toMemberServer.removeThreadMember env.toMemberEnv authorization req =
      some ((R.removeThreadMember env authorization req).1, (R.removeThreadMember env authorization req).2.toMemberServer) := by
  unfold MemberServer.removeThreadMember removeThreadMember MemberServer.asCreator
  split
  · rfl
  · rcases authorizeCreator R.toMemberServer env.toMemberEnv authorization req.threadId
      "only thread creator may remove members" with ⟨err | ⟨th, owner⟩, K⟩
    · rfl
    · dsimp only
      cases env.fails .listMembers with
      | some err => rfl
      | none =>
        dsimp only
        by_cases hvotes : ((K.db.listMembers req.threadId).any fun m => m.did = req.memberDid ∧ votes m.role) = true
        · rw [if_pos hvotes, if_pos hvotes]
          unfold proposeVoterChange
          dsimp only
          rcases K.proposeVoterChange env.toMemberEnv req.threadId req.memberDid false with ⟨err | _, K₁⟩
          · rfl
          · dsimp only
            rcases removeMemberWithEpoch K₁ env.toMemberEnv req.threadId req.memberDid with err | ⟨epoch, K₂⟩ <;> rfl
        · rw [if_neg hvotes, if_neg hvotes]
          dsimp only
          rcases removeMemberWithEpoch K env.toMemberEnv req.threadId req.memberDid with err | ⟨epoch, K₂⟩ <;> rfl

/-- Without the voters it is the call as it was. -/
theorem promoteThreadMember_eq (req : MemberServer.PromoteThreadMemberRequest) :
    R.toMemberServer.promoteThreadMember C env.toMemberEnv authorization req =
      (R.promoteThreadMember C env authorization req).map fun r => (r.1, r.2.toMemberServer) := by
  unfold MemberServer.promoteThreadMember promoteThreadMember MemberServer.asCreator
  cases req.catchupProof with
  | none => rfl
  | some raw =>
    dsimp only
    split
    · rfl
    · rcases authorizeCreator R.toMemberServer env.toMemberEnv authorization req.threadId
        "only thread creator may promote members" with ⟨err | ⟨th, owner⟩, K⟩
      · rfl
      · dsimp only
        cases env.fails .listMembers with
        | some err => rfl
        | none =>
          dsimp only
          split
          · rfl
          · rcases verifyCatchupProof C K env.toMemberEnv req.threadId req.memberDid raw with _ | err | _
            · rfl
            · rfl
            · unfold proposeVoterChange
              dsimp only
              rcases K.proposeVoterChange env.toMemberEnv req.threadId req.memberDid true with ⟨err | _, K₁⟩ <;> rfl

end VoterServer

/-- The calls that change voters. -/
inductive VoterCall
  | promote (req : MemberServer.PromoteThreadMemberRequest)
  | remove (req : MemberServer.RemoveThreadMemberRequest)
  | leave (threadID : String)

namespace VoterCall

/-- The thread a call is about. -/
def threadId : VoterCall → String
  | promote req => req.threadId
  | remove req => req.threadId
  | leave threadID => threadID

/-- The server after a call. -/
def serve (C : Ed25519) (R : VoterServer) (env : VoterEnv) (authorization : List String) : VoterCall → VoterServer
  | promote req => ((R.promoteThreadMember C env authorization req).map Prod.snd).getD R
  | remove req => (R.removeThreadMember env authorization req).2
  | leave threadID => ⟨(R.toMemberServer.leaveThread env.toMemberEnv authorization threadID).2, R.voters⟩

end VoterCall

/-! ## What the statements of a call do -/

open MemberServer (votes authorizeCreator removeMemberWithEpoch promoteMemberWithEpoch finishPromotion
  verifyCatchupProof)

section Statements

variable {K : MemberServer} {env : MemberEnv} {authorization : List String} {T did refusal : String}

/-- Authorisation changes neither the tables nor who the daemon is. -/
theorem frame_of_authorizeCreator {result : Except String (Thread × String)} {K' : MemberServer}
    (h : authorizeCreator K env authorization T refusal = (result, K')) : K'.db = K.db ∧ K'.did = K.did := by
  obtain rfl : (authorizeCreator K env authorization T refusal).2 = K' := congrArg Prod.snd h
  have hdb := @scopedOwner_db K.toServer env.toEnv authorization
  have hdid := @scopedOwner_did K.toServer env.toEnv authorization
  unfold MemberServer.authorizeCreator
  cases getThread K.toServer env.toEnv T with
  | error err => exact ⟨rfl, rfl⟩
  | ok th =>
    dsimp only
    generalize scopedOwner K.toServer env.toEnv authorization = x at hdb hdid
    obtain ⟨err | owner, S⟩ := x
    · exact ⟨hdb, hdid⟩
    · dsimp only
      split <;> exact ⟨hdb, hdid⟩

/-- To look through the members is to look for the role. -/
theorem any_listMembers {p : ThreadMemberRole → Prop} [DecidablePred p] :
    ((db.listMembers T).any fun m => m.did = did ∧ p m.role) = true ↔ ∃ role, db.roleOf T did = some role ∧ p role := by
  simp only [List.any_eq_true, decide_eq_true_eq, Database.listMembers, List.mem_insertionSort, Table.mem_select]
  constructor
  · rintro ⟨m, ⟨hm, hT⟩, hdid, hp⟩
    exact ⟨m.role, Database.mem_roll (p := (did, m.role)).mp ⟨m, hm, hT, hdid, rfl⟩, hp⟩
  · rintro ⟨role, hrole, hp⟩
    obtain ⟨m, hm, hT, hdid, rfl⟩ := Database.mem_roll (p := (did, role)).mpr hrole
    exact ⟨m, ⟨hm, hT⟩, hdid, hp⟩

/-- `RemoveMemberWithEpoch` succeeds: the member is there and is not the last voter. -/
def Removable (db : Database) (env : MemberEnv) (T did : String) : Prop :=
  env.breaks .removeMember = none ∧ ∃ row, db.members.lookup (T, did) = some row ∧
    (votes row.role = true → 1 < (db.members.select fun r => r.threadId = T ∧ votes r.role).length)

theorem removeMemberWithEpoch_of_removable (hT : T ≠ "") (hdid : did ≠ "") (h : Removable K.db env T did) :
    ∃ epoch, removeMemberWithEpoch K env T did = .ok (epoch, { K with db := struck K.db T did }) := by
  obtain ⟨hworks, row, hrow, hmore⟩ := h
  have hvalid : ¬(T = "" ∨ did = "") := by tauto
  have hguard : ¬(votes row.role = true ∧
      (K.db.members.select fun r => r.threadId = T ∧ votes r.role).length ≤ 1) :=
    fun hlast => absurd (hmore hlast.1) (not_lt.mpr hlast.2)
  unfold MemberServer.removeMemberWithEpoch
  rw [if_neg hvalid, hworks]
  dsimp only
  rw [hrow]
  dsimp only
  rw [if_neg hguard]
  exact ⟨_, rfl⟩

theorem removeMemberWithEpoch_of_not_removable (h : ¬Removable K.db env T did) :
    ∃ err, removeMemberWithEpoch K env T did = .error err := by
  unfold MemberServer.removeMemberWithEpoch
  split
  · exact ⟨_, rfl⟩
  split
  · exact ⟨_, rfl⟩
  rename_i hworks
  split
  · exact ⟨_, rfl⟩
  rename_i row hrow
  split
  · exact ⟨_, rfl⟩
  rename_i hguard
  refine absurd ⟨hworks, row, hrow, fun hvotes => ?_⟩ h
  by_contra hfew
  exact hguard ⟨hvotes, not_lt.mp hfew⟩

/-- The descriptor of the thread, if it can be read, is put into the outbox for every other replica. -/
def WakesSent (self : String) (env : Env) (s : Store) (T : String) : Prop :=
  env.fails .getThread = none → ∀ th, s.threads.lookup T = some th → ∀ did ∈ th.replicaDids, did ≠ self →
    env.fails (.wake did) = none

theorem enqueueThreadWake_eq_ok {S : Server} {env : Env} {th : Thread} :
    (enqueueThreadWake S env th).1 = .ok () ↔ ∀ did ∈ th.replicaDids, did ≠ S.did → env.fails (.wake did) = none := by
  have herrs : ((th.replicaDids.filter fun did => did ≠ S.did).filterMap fun did =>
      (env.fails (.wake did)).map fun err => "wake " ++ did ++ ": " ++ err) = [] ↔
        ∀ did ∈ th.replicaDids, did ≠ S.did → env.fails (.wake did) = none := by
    simp only [List.filterMap_eq_nil_iff, List.mem_filter, decide_eq_true_eq, and_imp, Option.map_eq_none_iff]
  rw [← herrs]
  unfold enqueueThreadWake
  dsimp only
  split
  · exact iff_of_true rfl ‹_›
  · refine iff_of_false ?_ ‹_›
    rintro ⟨⟩

/-- The first part of `finishPromotion`. -/
theorem finishPromotion_eq (K : MemberServer) (env : MemberEnv) (T did : String) :
    ∃ woken : Except String Unit, ∃ outbox, (woken = .ok () ↔ WakesSent K.did env.toEnv K.db.toStore T) ∧
      (finishPromotion K env T did).2.db = match woken with
        | .error _ => K.db
        | .ok () => match promoteMemberWithEpoch { K with outbox } env T did with
          | .error _ => K.db
          | .ok (_, _, K) => K.db := by
  unfold MemberServer.finishPromotion
  cases hget : getThread K.toServer env.toEnv T with
  | error err =>
    refine ⟨.ok (), K.outbox, iff_of_true rfl fun hworks th hth => ?_, ?_⟩
    · rw [getThread, hworks] at hget
      dsimp only at hget
      rw [hth] at hget
      cases hget
    · dsimp only
      rcases promoteMemberWithEpoch K env T did with err | ⟨m, epoch, K₁⟩ <;> rfl
  | ok th =>
    have hstored : K.db.threads.lookup T = some th := by
      obtain ⟨hmem, hid⟩ := getThread_eq_ok hget
      exact Table.lookup_eq_some.mpr ⟨hmem, hid⟩
    have hreads : env.fails .getThread = none := by
      cases hfails : env.fails .getThread with
      | none => rfl
      | some err =>
        rw [getThread, hfails] at hget
        cases hget
    refine ⟨(enqueueThreadWake K.toServer env.toEnv th).1, (enqueueThreadWake K.toServer env.toEnv th).2.outbox, ?_, ?_⟩
    · rw [enqueueThreadWake_eq_ok]
      constructor
      · intro hsent _ th' hth'
        obtain rfl := Option.some.inj (hstored.symm.trans hth')
        exact hsent
      · exact fun hsent => hsent hreads th hstored
    · dsimp only
      cases (enqueueThreadWake K.toServer env.toEnv th).1 with
      | error err => rfl
      | ok _ =>
        have hsame : { K with toServer := (enqueueThreadWake K.toServer env.toEnv th).2 } =
            { K with outbox := (enqueueThreadWake K.toServer env.toEnv th).2.outbox } := rfl
        dsimp only
        rw [hsame]
        rcases promoteMemberWithEpoch _ env T did with err | ⟨m, epoch, K₁⟩ <;> rfl

/-- The end of a promotion writes the row of a voter, if the wakes are sent and the transaction succeeds. -/
theorem finishPromotion_db {row : MemberRow} (hT : T ≠ "") (hdid : did ≠ "")
    (hrow : K.db.members.lookup (T, did) = some row) (hrole : row.role = .observer) :
    (WakesSent K.did env.toEnv K.db.toStore T ∧ env.breaks .promoteMember = none →
      (finishPromotion K env T did).2.db = enrolled K.db { row with role := .voter }) ∧
    (¬(WakesSent K.did env.toEnv K.db.toStore T ∧ env.breaks .promoteMember = none) →
      (finishPromotion K env T did).2.db = K.db) := by
  obtain ⟨woken, outbox, hwoken, hdb⟩ := finishPromotion_eq K env T did
  have hvalid : ¬(T = "" ∨ did = "") := by tauto
  have hid : row.threadId = T := (Prod.mk.inj (Table.lookup_eq_some.mp hrow).2).1
  have hpromote : promoteMemberWithEpoch { K with outbox } env T did = match env.breaks .promoteMember with
      | some err => .error err
      | none => .ok ({ row with role := .voter }, K.db.membershipEpoch T + 1,
        { K with outbox, db := enrolled K.db { row with role := .voter } }) := by
    unfold MemberServer.promoteMemberWithEpoch
    rw [if_neg hvalid]
    cases env.breaks .promoteMember with
    | some err => rfl
    | none =>
      dsimp only
      rw [hrow]
      dsimp only
      rw [if_neg (not_not.mpr hrole), enrolled, ← hid]
      rfl
  rw [hdb, ← hwoken]
  cases woken with
  | error err => exact ⟨fun h => (by cases h.1), fun _ => rfl⟩
  | ok _ =>
    dsimp only
    rw [hpromote]
    cases env.breaks .promoteMember with
    | some err => exact ⟨fun h => (by cases h.2), fun _ => rfl⟩
    | none => exact ⟨fun _ => rfl, fun h => absurd ⟨rfl, rfl⟩ h⟩

end Statements

/-! ## Consistency -/

/-- A DID is one of the committed voters of a thread exactly if it votes by the table of members. -/
def Consistent (R : VoterServer) (T did : String) : Prop :=
  did ∈ R.voters T ↔ (R.db.roleOf T did).any votes = true

instance (R : VoterServer) (T did : String) : Decidable (Consistent R T did) :=
  inferInstanceAs (Decidable (did ∈ R.voters T ↔ _))

section Kept

variable (C : Ed25519) (R : VoterServer) (env : VoterEnv) (authorization : List String)

/-- A call of `PromoteThreadMember` comes to the point where it proposes a change. -/
structure PromotionProposed (req : MemberServer.PromoteThreadMemberRequest) : Prop where
  thread : req.threadId ≠ ""
  member : req.memberDid ≠ ""
  checked : ∃ raw th K, req.catchupProof = some raw ∧
    authorizeCreator R.toMemberServer env.toMemberEnv authorization req.threadId
      "only thread creator may promote members" = (.ok th, K) ∧
    verifyCatchupProof C K env.toMemberEnv req.threadId req.memberDid raw = some (.ok ())
  listed : env.fails .listMembers = none
  observer : R.db.roleOf req.threadId req.memberDid = some .observer

/-- A call of `RemoveThreadMember` comes to the point where it proposes a change. -/
structure RemovalProposed (req : MemberServer.RemoveThreadMemberRequest) : Prop where
  thread : req.threadId ≠ ""
  member : req.memberDid ≠ ""
  authorized : ∃ th K, authorizeCreator R.toMemberServer env.toMemberEnv authorization req.threadId
    "only thread creator may remove members" = (.ok th, K)
  listed : env.fails .listMembers = none
  voter : (R.db.roleOf req.threadId req.memberDid).any votes = true

/-- The condition on a call: a change of the voters that it proposes is committed exactly if the call is told
so and all that it does afterwards succeeds, and a voter does not leave by itself. -/
def GoesThrough : VoterCall → Prop
  | .promote req => PromotionProposed C R env authorization req → req.memberDid ∉ R.voters req.threadId →
    let change := env.voterChange req.threadId req.memberDid true R.db.toStore
    (env.committed = true ↔ change.1 = .ok () ∧ WakesSent R.did env.toEnv change.2 req.threadId ∧
      env.breaks .promoteMember = none)
  | .remove req => RemovalProposed R env authorization req → req.memberDid ∈ R.voters req.threadId →
    (env.committed = true ↔ (env.voterChange req.threadId req.memberDid false R.db.toStore).1 = .ok () ∧
      Removable R.db env.toMemberEnv req.threadId req.memberDid)
  | .leave threadID => ∀ agent, threadID ≠ "" →
    (R.sessions.authenticate env.now (bearerToken authorization)).1 = .ok agent → agent ∈ R.voters threadID →
    (R.db.roleOf threadID agent).any votes = true → ¬Removable R.db env.toMemberEnv threadID agent

variable {C R env authorization} {R' : VoterServer} {T did : String}

theorem proposeVoterChange_eq {result : Except String Unit} {store : Store}
    (h : env.voterChange T did add R.db.toStore = (result, store)) :
    R.proposeVoterChange env T did add = (result, ⟨{ R.toMemberServer with db := { R.db with toStore := store } },
      (R.proposeVoterChange env T did add).2.voters⟩) := by
  simp only [VoterServer.proposeVoterChange, MemberServer.proposeVoterChange, h]

/-- Only the DID a call is about can become inconsistent. -/
theorem keeps_iff (did : String) (hvoters : ∀ d, d ≠ did → (d ∈ R'.voters T ↔ d ∈ R.voters T))
    (hroles : ∀ d, d ≠ did → R'.db.roleOf T d = R.db.roleOf T d) :
    (∀ d, Consistent R T d → Consistent R' T d) ↔ (Consistent R T did → Consistent R' T did) := by
  refine ⟨fun h => h did, fun h d hd => ?_⟩
  by_cases hdid : d = did
  · subst hdid
    exact h hd
  · rw [Consistent, hvoters d hdid, hroles d hdid]
    exact hd

theorem mem_proposeVoterChange : d ∈ (R.proposeVoterChange env T did add).2.voters T ↔
    if env.committed = true then d ∈ amendVoters (R.voters T) did add else d ∈ R.voters T := by
  simp only [VoterServer.proposeVoterChange]
  split_ifs
  · rw [Function.update_self]
  · rfl

theorem mem_amendVoters {V : Finset String} :
    d ∈ amendVoters V did add ↔ if add then d = did ∨ d ∈ V else d ≠ did ∧ d ∈ V := by
  cases add with
  | true => exact Finset.mem_insert
  | false => exact Finset.mem_erase

/-- What decides about a call that proposes to remove a voter: whether the change is committed, and whether the
row goes. -/
theorem keeps_removal_iff (env : VoterEnv) (T did : String) (gone : Prop)
    (hvoters : ∀ d, d ∈ R'.voters T ↔ d ∈ (R.proposeVoterChange env T did false).2.voters T)
    (hother : ∀ d, d ≠ did → R'.db.roleOf T d = R.db.roleOf T d)
    (hgone : gone → R'.db.roleOf T did = none) (hstays : ¬gone → R'.db.roleOf T did = R.db.roleOf T did)
    (hvotes : (R.db.roleOf T did).any votes = true) :
    (∀ d, Consistent R T d → Consistent R' T d) ↔ (did ∈ R.voters T → (env.committed = true ↔ gone)) := by
  have hmem (d : String) : d ∈ R'.voters T ↔ if env.committed = true then d ≠ did ∧ d ∈ R.voters T else d ∈ R.voters T := by
    rw [hvoters, mem_proposeVoterChange, mem_amendVoters]
    rfl
  rw [keeps_iff did (fun d hd => ?_) hother, Consistent, Consistent, hmem, hvotes]
  · by_cases hgo : gone
    · rw [hgone hgo]
      cases env.committed <;> simp [hgo]
    · rw [hstays hgo, hvotes]
      cases env.committed <;> simp [hgo]
  · rw [hmem]
    split_ifs
    · exact and_iff_right hd
    · rfl

/-- What decides about a call that proposes to add a voter: whether the change is committed, and whether the
row says so. -/
theorem keeps_promotion_iff (env : VoterEnv) (T did : String) (promoted : Prop)
    (hvoters : ∀ d, d ∈ R'.voters T ↔ d ∈ (R.proposeVoterChange env T did true).2.voters T)
    (hother : ∀ d, d ≠ did → R'.db.roleOf T d = R.db.roleOf T d)
    (hpromoted : promoted → R'.db.roleOf T did = some .voter)
    (hstays : ¬promoted → R'.db.roleOf T did = R.db.roleOf T did) (hrole : R.db.roleOf T did = some .observer) :
    (∀ d, Consistent R T d → Consistent R' T d) ↔ (did ∉ R.voters T → (env.committed = true ↔ promoted)) := by
  have hmem (d : String) : d ∈ R'.voters T ↔ if env.committed = true then d = did ∨ d ∈ R.voters T else d ∈ R.voters T := by
    rw [hvoters, mem_proposeVoterChange, mem_amendVoters]
    rfl
  have hvoter : votes .voter = true := rfl
  have hobserver : votes .observer = false := rfl
  rw [keeps_iff did (fun d hd => ?_) hother, Consistent, Consistent, hmem, hrole]
  · by_cases hgo : promoted
    · rw [hpromoted hgo]
      cases env.committed <;> simp [hgo, hvoter, hobserver]
    · rw [hstays hgo, hrole]
      cases env.committed <;> simp [hgo, hobserver]
  · rw [hmem]
    split_ifs
    · exact or_iff_right hd
    · rfl

theorem roleOf_struck_of_ne (hd : d ≠ did) : (struck db T did).roleOf T d = db.roleOf T d := by
  rw [roleOf_struck, if_neg fun h => hd h.2]

theorem roleOf_struck_self : (struck db T did).roleOf T did = none := by
  rw [roleOf_struck, if_pos ⟨rfl, rfl⟩]

/-! ## Leaving -/

theorem leaveThread_db {K : MemberServer} {env : MemberEnv} {agent : String} (hT : T ≠ "")
    (hagent : (K.sessions.authenticate env.now (bearerToken authorization)).1 = .ok agent) :
    (Removable K.db env T agent → (K.leaveThread env authorization T).2.db = struck K.db T agent) ∧
      (¬Removable K.db env T agent → (K.leaveThread env authorization T).2.db = K.db) := by
  have hne : agent ≠ "" := SessionManager.ne_of_authenticate (Prod.ext hagent rfl)
  unfold MemberServer.leaveThread
  rw [if_neg hT]
  generalize K.sessions.authenticate env.now (bearerToken authorization) = x at hagent
  obtain ⟨_, sessions⟩ := x
  dsimp only at hagent
  subst hagent
  constructor
  · intro hremovable
    obtain ⟨epoch, hremove⟩ := removeMemberWithEpoch_of_removable (K := { K with sessions }) hT hne hremovable
    dsimp only
    rw [hremove]
  · intro hremovable
    obtain ⟨err, hremove⟩ := removeMemberWithEpoch_of_not_removable (K := { K with sessions }) hremovable
    dsimp only
    rw [hremove]

/-- Without an agent nothing is removed. -/
theorem leaveThread_db_of_none {K : MemberServer} {env : MemberEnv}
    (h : T = "" ∨ ∀ agent, (K.sessions.authenticate env.now (bearerToken authorization)).1 ≠ .ok agent) :
    (K.leaveThread env authorization T).2.db = K.db := by
  unfold MemberServer.leaveThread
  split
  · rfl
  · rename_i hT
    have hnone := h.resolve_left hT
    generalize K.sessions.authenticate env.now (bearerToken authorization) = x at hnone
    obtain ⟨err | agent, sessions⟩ := x
    · rfl
    · exact absurd rfl (hnone agent)

theorem leave_keeps_iff (threadID : String) :
    (∀ d, Consistent R threadID d → Consistent ((VoterCall.leave threadID).serve C R env authorization) threadID d) ↔
      GoesThrough C R env authorization (.leave threadID) := by
  have hsame (hdb : ((VoterCall.leave threadID).serve C R env authorization).db = R.db) (d : String)
      (h : Consistent R threadID d) : Consistent ((VoterCall.leave threadID).serve C R env authorization) threadID d := by
    rw [Consistent, hdb]
    exact h
  by_cases hnone : threadID = "" ∨ ∀ agent, (R.sessions.authenticate env.now (bearerToken authorization)).1 ≠ .ok agent
  · refine iff_of_true (hsame (leaveThread_db_of_none hnone)) fun agent hT hagent => ?_
    rcases hnone with h | h
    · exact absurd h hT
    · exact absurd hagent (h agent)
  push Not at hnone
  obtain ⟨hT, agent, hagent⟩ := hnone
  obtain ⟨hgone, hstays⟩ := leaveThread_db hT hagent
  by_cases hremovable : Removable R.db env.toMemberEnv threadID agent
  · have hdb : ((VoterCall.leave threadID).serve C R env authorization).db = struck R.db threadID agent :=
      hgone hremovable
    have hother (d : String) (hd : d ≠ agent) :
        ((VoterCall.leave threadID).serve C R env authorization).db.roleOf threadID d = R.db.roleOf threadID d := by
      rw [hdb, roleOf_struck_of_ne hd]
    have hvoters (d : String) (_ : d ≠ agent) :
        d ∈ ((VoterCall.leave threadID).serve C R env authorization).voters threadID ↔ d ∈ R.voters threadID := .rfl
    refine (keeps_iff agent hvoters hother).trans ?_
    rw [Consistent, Consistent, hdb, roleOf_struck_self]
    simp only [Option.any_none, Bool.false_eq_true, iff_false]
    constructor
    · rintro h agent' - hagent' hmem hvotes
      obtain rfl := Except.ok.inj (hagent.symm.trans hagent')
      exact absurd hmem (h ⟨fun _ => hvotes, fun _ => hmem⟩)
    · intro h hconsistent hmem
      exact h agent hT hagent hmem (hconsistent.mp hmem) hremovable
  · refine iff_of_true (hsame (hstays hremovable)) fun agent' _ hagent' _ _ => ?_
    obtain rfl := Except.ok.inj (hagent.symm.trans hagent')
    exact hremovable

/-! ## Removing -/

variable {req : MemberServer.RemoveThreadMemberRequest}

/-- What a call does that proposes to remove a voter. -/
theorem removeThreadMember_of_proposed (h : RemovalProposed R env authorization req) :
    (R.removeThreadMember env authorization req).2.voters =
      (R.proposeVoterChange env req.threadId req.memberDid false).2.voters ∧
    ((env.voterChange req.threadId req.memberDid false R.db.toStore).1 = .ok () ∧
        Removable R.db env.toMemberEnv req.threadId req.memberDid →
      (R.removeThreadMember env authorization req).2.db.members = (struck R.db req.threadId req.memberDid).members) ∧
    (¬((env.voterChange req.threadId req.memberDid false R.db.toStore).1 = .ok () ∧
        Removable R.db env.toMemberEnv req.threadId req.memberDid) →
      (R.removeThreadMember env authorization req).2.db.members = R.db.members) := by
  obtain ⟨th, K, hauth⟩ := h.authorized
  have hdb : K.db = R.db := (frame_of_authorizeCreator hauth).1
  have hvalid : ¬(req.threadId = "" ∨ req.memberDid = "") := not_or.mpr ⟨h.thread, h.member⟩
  have hany : ((K.db.listMembers req.threadId).any fun m => m.did = req.memberDid ∧ votes m.role) = true := by
    rw [hdb]
    exact (any_listMembers (p := fun role => votes role = true)).mpr ((Option.any_eq_true _ _).mp h.voter)
  unfold VoterServer.removeThreadMember
  rw [if_neg hvalid, hauth]
  dsimp only
  rw [h.listed]
  dsimp only
  rw [if_pos hany, ← hdb]
  rcases hchange : env.voterChange req.threadId req.memberDid false K.db.toStore with ⟨err | _, store⟩
  · rw [proposeVoterChange_eq (R := ⟨K, R.voters⟩) hchange]
    exact ⟨rfl, fun h => (by cases h.1), fun _ => rfl⟩
  · rw [proposeVoterChange_eq (R := ⟨K, R.voters⟩) hchange]
    dsimp only
    generalize hK₁ : ({ K with db := { K.db with toStore := store } } : MemberServer) = K₁
    have hmembers : K₁.db.members = K.db.members := by rw [← hK₁]
    have hremovable : Removable K₁.db env.toMemberEnv req.threadId req.memberDid ↔
        Removable K.db env.toMemberEnv req.threadId req.memberDid := by
      rw [Removable, hmembers]
      rfl
    by_cases hgo : Removable K₁.db env.toMemberEnv req.threadId req.memberDid
    · obtain ⟨epoch, hremove⟩ := removeMemberWithEpoch_of_removable h.thread h.member hgo
      rw [hremove]
      refine ⟨rfl, fun _ => ?_, fun hnot => absurd ⟨rfl, hremovable.mp hgo⟩ hnot⟩
      simp only [struck, hmembers]
    · obtain ⟨err, hremove⟩ := removeMemberWithEpoch_of_not_removable hgo
      rw [hremove]
      exact ⟨rfl, fun hyes => absurd (hremovable.mpr hyes.2) hgo, fun _ => hmembers⟩

/-- A call that does not propose to remove a voter leaves all votes as they are. -/
theorem removeThreadMember_of_not_proposed (h : ¬RemovalProposed R env authorization req) :
    (R.removeThreadMember env authorization req).2.voters = R.voters ∧
      ∀ d, ((R.removeThreadMember env authorization req).2.db.roleOf req.threadId d).any votes =
        (R.db.roleOf req.threadId d).any votes := by
  unfold VoterServer.removeThreadMember
  split
  · exact ⟨rfl, fun _ => rfl⟩
  rename_i hvalid
  rw [not_or] at hvalid
  rcases hauth : authorizeCreator R.toMemberServer env.toMemberEnv authorization req.threadId
    "only thread creator may remove members" with ⟨err | th, K⟩ <;>
      have hsame : K.db = R.db := (frame_of_authorizeCreator hauth).1
  · exact ⟨rfl, fun d => congrArg (fun db : Database => (db.roleOf req.threadId d).any votes) hsame⟩
  dsimp only
  cases hlisted : env.fails .listMembers with
  | some err => exact ⟨rfl, fun d => congrArg (fun db : Database => (db.roleOf req.threadId d).any votes) hsame⟩
  | none =>
    have hvotes : ¬(R.db.roleOf req.threadId req.memberDid).any votes = true :=
      fun hvotes => h ⟨hvalid.1, hvalid.2, ⟨th, K, hauth⟩, hlisted, hvotes⟩
    have hany : ¬((K.db.listMembers req.threadId).any fun m => m.did = req.memberDid ∧ votes m.role) = true := by
      intro hany
      rw [hsame] at hany
      exact hvotes ((Option.any_eq_true _ _).mpr ((any_listMembers (p := fun role => votes role = true)).mp hany))
    dsimp only
    rw [if_neg hany]
    dsimp only
    by_cases hgo : Removable K.db env.toMemberEnv req.threadId req.memberDid
    · obtain ⟨epoch, hremove⟩ := removeMemberWithEpoch_of_removable hvalid.1 hvalid.2 hgo
      rw [hremove]
      refine ⟨rfl, fun d => ?_⟩
      change ((struck K.db req.threadId req.memberDid).roleOf req.threadId d).any votes = _
      rw [hsame]
      by_cases hd : d = req.memberDid
      · subst hd
        rw [roleOf_struck_self, Bool.eq_false_iff.mpr hvotes]
        rfl
      · rw [roleOf_struck_of_ne hd]
    · obtain ⟨err, hremove⟩ := removeMemberWithEpoch_of_not_removable hgo
      rw [hremove]
      exact ⟨rfl, fun d => congrArg (fun db : Database => (db.roleOf req.threadId d).any votes) hsame⟩

theorem remove_keeps_iff (req : MemberServer.RemoveThreadMemberRequest) :
    (∀ d, Consistent R req.threadId d →
      Consistent ((VoterCall.remove req).serve C R env authorization) req.threadId d) ↔
        GoesThrough C R env authorization (.remove req) := by
  by_cases hproposed : RemovalProposed R env authorization req
  · obtain ⟨hvoters, hgone, hstays⟩ := removeThreadMember_of_proposed hproposed
    have hroles {db db' : Database} (h : db'.members = db.members) (d : String) :
        db'.roleOf req.threadId d = db.roleOf req.threadId d := by
      rw [Database.roleOf, h]
      rfl
    refine (keeps_removal_iff env req.threadId req.memberDid
      ((env.voterChange req.threadId req.memberDid false R.db.toStore).1 = .ok () ∧
        Removable R.db env.toMemberEnv req.threadId req.memberDid) ?_ ?_ ?_ ?_ hproposed.voter).trans ?_
    · intro d
      rw [← hvoters]
      rfl
    · intro d hd
      by_cases hgo : (env.voterChange req.threadId req.memberDid false R.db.toStore).1 = .ok () ∧
          Removable R.db env.toMemberEnv req.threadId req.memberDid
      · exact (hroles (hgone hgo) d).trans (roleOf_struck_of_ne hd)
      · exact hroles (hstays hgo) d
    · exact fun hgo => (hroles (hgone hgo) _).trans roleOf_struck_self
    · exact fun hgo => hroles (hstays hgo) _
    · exact ⟨fun h _ => h, fun h => h hproposed⟩
  · obtain ⟨hvoters, hroles⟩ := removeThreadMember_of_not_proposed hproposed
    refine iff_of_true (fun d hd => ?_) fun h => absurd h hproposed
    change d ∈ (R.removeThreadMember env authorization req).2.voters req.threadId ↔ _
    rw [hvoters]
    exact hd.trans (by rw [← hroles]; rfl)

/-! ## Promoting -/

variable {req' : MemberServer.PromoteThreadMemberRequest}

/-- What becomes of the row of an observer whose promotion is proposed: whether it votes in the end. -/
def Promoted (R : VoterServer) (env : VoterEnv) (req : MemberServer.PromoteThreadMemberRequest) : Prop :=
  (env.voterChange req.threadId req.memberDid true R.db.toStore).1 = .ok () ∧
    WakesSent R.did env.toEnv (env.voterChange req.threadId req.memberDid true R.db.toStore).2 req.threadId ∧
    env.breaks .promoteMember = none

/-- What a call does that proposes to add a voter. -/
theorem promoteThreadMember_of_proposed (h : PromotionProposed C R env authorization req') :
    ∃ result R', R.promoteThreadMember C env authorization req' = some (result, R') ∧
      R'.voters = (R.proposeVoterChange env req'.threadId req'.memberDid true).2.voters ∧
      (Promoted R env req' → ∃ row, row.threadId = req'.threadId ∧ row.did = req'.memberDid ∧ row.role = .voter ∧
        R'.db.members = R.db.members.insertOrReplace row) ∧
      (¬Promoted R env req' → R'.db.members = R.db.members) := by
  obtain ⟨raw, th, K, hraw, hauth, hverify⟩ := h.checked
  obtain ⟨hdb, hself⟩ : K.db = R.db ∧ K.did = R.did := frame_of_authorizeCreator hauth
  have hvalid : ¬(req'.threadId = "" ∨ req'.memberDid = "") := not_or.mpr ⟨h.thread, h.member⟩
  have hany : ((K.db.listMembers req'.threadId).any fun m => m.did = req'.memberDid ∧ m.role = .observer) = true := by
    rw [hdb]
    exact (any_listMembers (p := fun role => role = .observer)).mpr ⟨_, h.observer, rfl⟩
  obtain ⟨row, hrow, hrole⟩ := Option.map_eq_some_iff.mp h.observer
  unfold VoterServer.promoteThreadMember
  rw [hraw]
  dsimp only
  rw [if_neg hvalid, hauth]
  dsimp only
  rw [h.listed]
  dsimp only
  rw [if_neg (not_not.mpr hany), hverify]
  dsimp only
  unfold Promoted
  rw [← hdb, ← hself]
  rcases hchange : env.voterChange req'.threadId req'.memberDid true K.db.toStore with ⟨err | _, store⟩
  · rw [proposeVoterChange_eq (R := ⟨K, R.voters⟩) hchange]
    exact ⟨_, _, rfl, rfl, fun h => (by cases h.1), fun _ => rfl⟩
  · rw [proposeVoterChange_eq (R := ⟨K, R.voters⟩) hchange]
    dsimp only
    generalize hK₁ : ({ K with db := { K.db with toStore := store } } : MemberServer) = K₁
    have hstore : K₁.db.toStore = store := by rw [← hK₁]
    have hmembers : K₁.db.members = K.db.members := by rw [← hK₁]
    have hdid : K₁.did = K.did := by rw [← hK₁]
    have hrow₁ : K₁.db.members.lookup (req'.threadId, req'.memberDid) = some row := by rw [hmembers, hdb, hrow]
    obtain ⟨hdone, hundone⟩ := @finishPromotion_db K₁ env.toMemberEnv _ _ row h.thread h.member hrow₁ hrole
    rw [hdid, hstore] at hdone hundone
    obtain ⟨hkeyT, hkeyD⟩ := Prod.mk.inj (Table.lookup_eq_some.mp hrow).2
    refine ⟨_, _, rfl, rfl, fun hgo => ⟨{ row with role := .voter }, hkeyT, hkeyD, rfl, ?_⟩, fun hgo => ?_⟩
    · dsimp only
      rw [hdone hgo.2, ← hmembers]
      rfl
    · dsimp only
      rw [hundone fun hdone => hgo ⟨rfl, hdone⟩, hmembers]

/-- A call that does not propose to add a voter leaves the voters and the table as they are. -/
theorem promoteThreadMember_of_not_proposed (h : ¬PromotionProposed C R env authorization req') :
    ((VoterCall.promote req').serve C R env authorization).voters = R.voters ∧
      ((VoterCall.promote req').serve C R env authorization).db = R.db := by
  simp only [VoterCall.serve, VoterServer.promoteThreadMember]
  cases hraw : req'.catchupProof with
  | none => exact ⟨rfl, rfl⟩
  | some raw =>
    dsimp only
    split
    · exact ⟨rfl, rfl⟩
    rename_i hvalid
    rw [not_or] at hvalid
    rcases hauth : authorizeCreator R.toMemberServer env.toMemberEnv authorization req'.threadId
      "only thread creator may promote members" with ⟨err | th, K⟩ <;>
        have hsame : K.db = R.db := (frame_of_authorizeCreator hauth).1
    · exact ⟨rfl, hsame⟩
    dsimp only
    cases hlisted : env.fails .listMembers with
    | some err => exact ⟨rfl, hsame⟩
    | none =>
      dsimp only
      by_cases hany : ((K.db.listMembers req'.threadId).any fun m => m.did = req'.memberDid ∧ m.role = .observer) = true
      · rw [if_neg (not_not.mpr hany)]
        rcases hverify : verifyCatchupProof C K env.toMemberEnv req'.threadId req'.memberDid raw with _ | err | _
        · exact ⟨rfl, rfl⟩
        · exact ⟨rfl, hsame⟩
        · rw [hsame] at hany
          obtain ⟨role, hrole, rfl⟩ := (any_listMembers (p := fun role => role = .observer)).mp hany
          exact absurd ⟨hvalid.1, hvalid.2, ⟨raw, th, K, hraw, hauth, hverify⟩, hlisted, hrole⟩ h
      · rw [if_pos hany]
        exact ⟨rfl, hsame⟩

theorem promote_keeps_iff (req : MemberServer.PromoteThreadMemberRequest) :
    (∀ d, Consistent R req.threadId d →
      Consistent ((VoterCall.promote req).serve C R env authorization) req.threadId d) ↔
        GoesThrough C R env authorization (.promote req) := by
  by_cases hproposed : PromotionProposed C R env authorization req
  · obtain ⟨result, R', hcall, hvoters, hdone, hundone⟩ := promoteThreadMember_of_proposed hproposed
    have hserve : (VoterCall.promote req).serve C R env authorization = R' := by
      simp only [VoterCall.serve, hcall, Option.map_some, Option.getD_some]
    have hsame (h : R'.db.members = R.db.members) (d : String) :
        R'.db.roleOf req.threadId d = R.db.roleOf req.threadId d := by
      rw [Database.roleOf, h]
      rfl
    rw [hserve]
    refine (keeps_promotion_iff env req.threadId req.memberDid (Promoted R env req) ?_ ?_ ?_ ?_ hproposed.observer).trans ?_
    · intro d
      rw [← hvoters]
    · intro d hd
      by_cases hgo : Promoted R env req
      · obtain ⟨row, hT, hdid, -, hmembers⟩ := hdone hgo
        rw [roleOf_insertOrReplace hmembers, if_neg]
        exact fun hkey => hd (hkey.2.symm.trans hdid)
      · exact hsame (hundone hgo) d
    · intro hgo
      obtain ⟨row, hT, hdid, hrole, hmembers⟩ := hdone hgo
      rw [roleOf_insertOrReplace hmembers, if_pos ⟨hT, hdid⟩, hrole]
    · exact fun hgo => hsame (hundone hgo) _
    · exact ⟨fun h _ => h, fun h => h hproposed⟩
  · obtain ⟨hvoters, hdb⟩ := promoteThreadMember_of_not_proposed hproposed
    refine iff_of_true (fun d hd => ?_) fun h => absurd h hproposed
    rw [Consistent, hvoters, hdb]
    exact hd

end Kept

/-- **When the table and the voters go together**: every DID that is consistent before a call of
`PromoteThreadMember`, `RemoveThreadMember` or `LeaveThread` is consistent after it, exactly if a change
that the call proposes is committed just when all of the call succeeds, and no voter leaves. -/
theorem consistency_kept_iff (C : Ed25519) (R : VoterServer) (env : VoterEnv) (authorization : List String)
    (call : VoterCall) :
    (∀ did, Consistent R call.threadId did →
      Consistent (call.serve C R env authorization) call.threadId did) ↔ GoesThrough C R env authorization call := by
  cases call with
  | promote req => exact promote_keeps_iff req
  | remove req => exact remove_keeps_iff req
  | leave threadID => exact leave_keeps_iff threadID

/-! Calls that stop halfway. -/
namespace Parted

open Tendermint.Quartet (did1 did3 did4 checksum)

/-- The daemon of the creator, who is the only voter. -/
def landlord : VoterServer := ⟨MemberServer.Lodger.home, fun _ => {did1}⟩

/-- The change is committed, and the transaction that promotes the member fails. -/
def spoiled : VoterEnv where
  toMemberEnv := { MemberServer.faultless 1 with breaks := fun
    | .promoteMember => some "disk full"
    | _ => none }
  committed := true

/-- The third agent votes as well. -/
def shared : VoterServer where
  toMemberServer := { MemberServer.Lodger.home with db :=
    (MemberServer.Lodger.home.db.saveMember ⟨"t", did3, .voter, 1⟩).getD MemberServer.Lodger.home.db }
  voters := fun _ => {did1, did3}

/-- **The table and the voters part**: a promotion that is committed is not written to the table, and a voter
that leaves stays a voter of the thread. -/
theorem voters_part :
    (Consistent landlord "t" did4 ∧
      ¬Consistent ((VoterCall.promote ⟨"t", did4, some (.ok MemberServer.Lodger.proof)⟩).serve checksum landlord spoiled [])
        "t" did4) ∧
    Consistent shared "t" did3 ∧
      ¬Consistent ((VoterCall.leave "t").serve checksum shared ⟨MemberServer.faultless 1, false⟩ ["Bearer token"])
        "t" did3 := by
  refine ⟨⟨?_, ?_⟩, ?_, ?_⟩ <;> decide +kernel

end Parted

end MoltMesh.Rpc

import MoltMesh.Rpc.Authority
import MoltMesh.Tendermint.Script

/-!
# Who changes the members of a thread

`InviteThreadMember`, `PromoteThreadMember`, `RemoveThreadMember`, `PutThreadKeyEnvelope` and
`AcceptThreadInvite` of `daemon/rpc/server_threads.go`, with what they call of
`daemon/thread/store_membership.go` and `daemon/thread/store_keys.go`.

The first four compare the owner of a session with the creator of the thread.  A call without a
session has no owner, and then nothing is compared.  `AcceptThreadInvite` verifies an invitation
against the inviter it names (`creator_authority_iff`).
-/

namespace MoltMesh.Rpc

open MoltMesh.Lib Pb

/-! ## The messages and the tables -/

/-- The number of a role on the wire. -/
def roleNumber : ThreadMemberRole → Int
  | .unspecified => 0
  | .observer => 1
  | .voter => 2
  | .admin => 3

/-- `pb.ThreadInvitation`. -/
structure ThreadInvitation where
  threadId : String
  inviterDid : String
  inviteeDid : String
  role : ThreadMemberRole
  expiresAtUnixMs : Int
  nonce : List UInt8
  signature : List UInt8
deriving DecidableEq

/-- The deterministic encoding of an invitation without its signature. -/
def ThreadInvitation.unsigned (i : ThreadInvitation) : List UInt8 :=
  protoBytes 1 (bytes i.threadId) ++ protoBytes 2 (bytes i.inviterDid) ++ protoBytes 3 (bytes i.inviteeDid) ++
    protoInt 4 (roleNumber i.role) ++ protoInt 5 i.expiresAtUnixMs ++ protoBytes 6 i.nonce

/-- `pb.ThreadCatchupProof`. -/
structure ThreadCatchupProof where
  threadId : String
  observerDid : String
  committedHeight : Int
  headBlockHash : String
  issuedAtUnixMs : Int
  signature : List UInt8
deriving DecidableEq

/-- The deterministic encoding of a proof without its signature. -/
def ThreadCatchupProof.unsigned (p : ThreadCatchupProof) : List UInt8 :=
  protoBytes 1 (bytes p.threadId) ++ protoBytes 2 (bytes p.observerDid) ++ protoInt 3 p.committedHeight ++
    protoBytes 4 (bytes p.headBlockHash) ++ protoInt 5 p.issuedAtUnixMs

/-- `pb.ThreadKeyEnvelope`. -/
structure ThreadKeyEnvelope where
  threadId : String
  encryptionEpoch : Nat
  recipientDid : String
  ephemeralPublicKey : List UInt8
  nonce : List UInt8
  ciphertext : List UInt8
  recoveryEnvelope : Bool
  authorSignature : List UInt8
deriving DecidableEq

/-- The deterministic encoding of an envelope without its signature. -/
def ThreadKeyEnvelope.unsigned (e : ThreadKeyEnvelope) : List UInt8 :=
  protoBytes 1 (bytes e.threadId) ++ protoInt 2 e.encryptionEpoch ++ protoBytes 3 (bytes e.recipientDid) ++
    protoBytes 4 e.ephemeralPublicKey ++ protoBytes 5 e.nonce ++ protoBytes 6 e.ciphertext ++
    protoInt 7 (if e.recoveryEnvelope then 1 else 0)

/-- A row of `thread_invites`. -/
structure InviteRow where
  threadId : String
  inviteeDid : String
  role : ThreadMemberRole
  nonce : List UInt8
  expiresAt : Int
  acceptedAt : Int
deriving DecidableEq

/-- A row of `thread_key_envelopes`. -/
structure KeyRow where
  threadId : String
  encryptionEpoch : Nat
  recipientDid : String
  ephemeralPublicKey : List UInt8
  nonce : List UInt8
  ciphertext : List UInt8
  recoveryEnvelope : Bool
deriving DecidableEq

/-- A row of `thread_recovery_key_envelopes`. -/
structure RecoveryKeyRow where
  threadId : String
  encryptionEpoch : Nat
  ephemeralPublicKey : List UInt8
  nonce : List UInt8
  ciphertext : List UInt8
deriving DecidableEq

/-- The server with the tables of invitations and keys, and the key the daemon signs with. -/
structure MemberServer extends Server where
  privateKey : List UInt8
  invites : Table InviteRow fun r => (r.threadId, r.inviteeDid, r.nonce)
  keyEnvelopes : Table KeyRow fun r => (r.threadId, r.encryptionEpoch, r.recipientDid)
  recoveryKeyEnvelopes : Table RecoveryKeyRow fun r => (r.threadId, r.encryptionEpoch)

/-- The further calls that may fail. -/
inductive MemberCall
  | saveInvite
  | acceptInvite
  | removeMember
  | promoteMember
  | committedHead
  | saveKeyEnvelope
  | saveRecoveryKeyEnvelope
  /-- `PublishRecoveryEnvelope`. -/
  | publish
  | gossip

/-- What the environment decides during one call.  A voter change goes through consensus, which may write
any of its tables before it answers. -/
structure MemberEnv extends Env where
  breaks : MemberCall → Option String
  voterChange : String → String → Bool → Store → Except String Unit × Store

variable (C : Ed25519) (K : MemberServer) (env : MemberEnv) (authorization : List String)

namespace MemberServer

/-- What is stored is the same in two states: the sessions are in memory, and the order of rows is not
stored. -/
structure Unchanged (K' : MemberServer) : Prop where
  store : K'.db.toStore = K.db.toStore
  members : ∀ r, r ∈ K'.db.members.rows ↔ r ∈ K.db.members.rows
  epochs : ∀ r, r ∈ K'.db.membershipEpochs.rows ↔ r ∈ K.db.membershipEpochs.rows
  invites : ∀ r, r ∈ K'.invites.rows ↔ r ∈ K.invites.rows
  keyEnvelopes : ∀ r, r ∈ K'.keyEnvelopes.rows ↔ r ∈ K.keyEnvelopes.rows
  recoveryKeyEnvelopes : ∀ r, r ∈ K'.recoveryKeyEnvelopes.rows ↔ r ∈ K.recoveryKeyEnvelopes.rows
  outbox : K'.outbox = K.outbox

/-! ## The store -/

/-- `advanceMembershipEpochTx`. -/
def advanceMembershipEpoch (db : Database) (threadID : String) : Nat × Database :=
  let epoch := db.membershipEpoch threadID + 1
  (epoch, { db with membershipEpochs := db.membershipEpochs.insertOrReplace (threadID, epoch) })

/-- `SaveInvite`. -/
def saveInvite (threadID invitee : String) (role : ThreadMemberRole) (nonce : List UInt8) (expiresAt : Int) :
    Except String MemberServer :=
  if threadID = "" ∨ invitee = "" ∨ role = .unspecified ∨ nonce = [] ∨ expiresAt ≤ env.now then
    .error "invalid thread invite"
  else match env.breaks .saveInvite with
    | some err => .error err
    | none => .ok { K with invites := K.invites.insertOrReplace ⟨threadID, invitee, role, nonce, expiresAt, 0⟩ }

/-- `AcceptInviteWithEpoch`, one transaction. -/
def acceptInviteWithEpoch (threadID invitee : String) (nonce : List UInt8) : Except String MemberServer :=
  if threadID = "" ∨ invitee = "" ∨ nonce = [] then .error "invalid thread invite"
  else match env.breaks .acceptInvite with
    | some err => .error err
    | none => match K.invites.lookup (threadID, invitee, nonce) with
      | none => .error "sql: no rows in result set"
      | some row =>
        if row.acceptedAt ≠ 0 ∨ row.expiresAt ≤ env.now then .error "thread invite expired or already accepted"
        else
          let (epoch, db) := advanceMembershipEpoch K.db threadID
          .ok { K with
            db := { db with members := db.members.insertOrReplace ⟨threadID, invitee, row.role, epoch⟩ }
            invites := K.invites.insertOrReplace { row with acceptedAt := env.now } }

/-- Whether a role votes. -/
def votes (role : ThreadMemberRole) : Bool := role = .voter ∨ role = .admin

/-- `RemoveMemberWithEpoch`, one transaction. -/
def removeMemberWithEpoch (threadID did : String) : Except String (Nat × MemberServer) :=
  if threadID = "" ∨ did = "" then .error "invalid thread member"
  else match env.breaks .removeMember with
    | some err => .error err
    | none => match K.db.members.lookup (threadID, did) with
      | none => .error "sql: no rows in result set"
      | some row =>
        if votes row.role ∧ (K.db.members.select fun r => r.threadId = threadID ∧ votes r.role).length ≤ 1 then
          .error "cannot remove last voter"
        else
          let db := { K.db with members := K.db.members.deleteWhere fun r => r.threadId = threadID ∧ r.did = did }
          let (epoch, db) := advanceMembershipEpoch db threadID
          .ok (epoch, { K with db })

/-- `PromoteMemberWithEpoch`, one transaction. -/
def promoteMemberWithEpoch (threadID did : String) : Except String (MemberRow × Nat × MemberServer) :=
  if threadID = "" ∨ did = "" then .error "invalid thread member"
  else match env.breaks .promoteMember with
    | some err => .error err
    | none => match K.db.members.lookup (threadID, did) with
      | none => .error "sql: no rows in result set"
      | some row =>
        if row.role ≠ .observer then .error "only observers may be promoted"
        else
          let row := { row with role := .voter }
          let (epoch, db) :=
            advanceMembershipEpoch { K.db with members := K.db.members.insertOrReplace row } threadID
          .ok (row, epoch, { K with db })

/-- `SaveKeyEnvelope`. -/
def saveKeyEnvelope (e : ThreadKeyEnvelope) : Except String MemberServer :=
  if e.threadId = "" ∨ e.recipientDid = "" ∨ e.encryptionEpoch = 0 ∨ e.ciphertext = [] then
    .error "invalid thread key envelope"
  else if e.ephemeralPublicKey.length ≠ 32 ∨ e.nonce.length ≠ 24 ∨ 64 * 1024 < e.ciphertext.length then
    .error "invalid thread key envelope size"
  else match env.breaks .saveKeyEnvelope with
    | some err => .error err
    | none => .ok { K with
      keyEnvelopes := K.keyEnvelopes.insertOrReplace ⟨e.threadId, e.encryptionEpoch, e.recipientDid,
        e.ephemeralPublicKey, e.nonce, e.ciphertext, e.recoveryEnvelope⟩ }

/-- `SaveRecoveryKeyEnvelope`. -/
def saveRecoveryKeyEnvelope (e : ThreadKeyEnvelope) : Except String MemberServer :=
  if e.recoveryEnvelope = false then .error "invalid recovery key envelope"
  else if e.threadId = "" ∨ e.encryptionEpoch = 0 ∨ e.ephemeralPublicKey.length ≠ 32 ∨ e.nonce.length ≠ 24 ∨
      e.ciphertext = [] ∨ 64 * 1024 < e.ciphertext.length then .error "invalid recovery key envelope"
  else match env.breaks .saveRecoveryKeyEnvelope with
    | some err => .error err
    | none => .ok { K with
      recoveryKeyEnvelopes := K.recoveryKeyEnvelopes.insertOrReplace ⟨e.threadId, e.encryptionEpoch,
        e.ephemeralPublicKey, e.nonce, e.ciphertext⟩ }

/-- `CommittedHead`. -/
def committedHead (threadID : String) : Except String (Int × String) :=
  match env.breaks .committedHead with
  | some err => .error err
  | none =>
    let height := K.db.getCommittedHeight threadID
    if height = 0 then .ok (0, "")
    else match K.db.getBlock threadID height with
      | none => .error "sql: no rows in result set"
      | some b => .ok (height, b.blockHash)

/-- `ProposeVoterChange`. -/
def proposeVoterChange (threadID did : String) (add : Bool) : Except String Unit × MemberServer :=
  let (result, store) := env.voterChange threadID did add K.db.toStore
  (result, { K with db := { K.db with toStore := store } })

/-! ## The creator's calls -/

/-- What the four calls begin with: the thread is read, and the owner of a session has to be its creator. -/
def authorizeCreator (threadID refusal : String) : Except String (Thread × String) × MemberServer :=
  match getThread K.toServer env.toEnv threadID with
  | .error err => (.error err, K)
  | .ok th => match scopedOwner K.toServer env.toEnv authorization with
    | (.error err, S) => (.error err, { K with toServer := S })
    | (.ok owner, S) =>
      if owner ≠ "" ∧ owner ≠ th.creatorDid then (.error refusal, { K with toServer := S })
      else (.ok (th, owner), { K with toServer := S })

/-- A call of the creator's; there is no result when it panics. -/
def asCreator {α : Type} (threadID refusal : String)
    (act : Thread → String → MemberServer → Option (Except String α × MemberServer)) :
    Option (Except String α × MemberServer) :=
  match authorizeCreator K env authorization threadID refusal with
  | (.error err, K) => some (.error err, K)
  | (.ok (th, owner), K) => act th owner K

/-- The end of a call that writes once. -/
def finish {α : Type} (a : α) : Except String MemberServer → Except String α × MemberServer
  | .error err => (.error err, K)
  | .ok K => (.ok a, K)

/-- `pb.InviteThreadMemberRequest`. -/
structure InviteThreadMemberRequest where
  threadId : String
  inviteeDid : String
  role : ThreadMemberRole
  expiresAtUnixMs : Int
  nonce : List UInt8
  signature : List UInt8
deriving DecidableEq

/-- The invitation of a request before it is signed. -/
def invitationOf (req : InviteThreadMemberRequest) (inviter : String) : ThreadInvitation :=
  ⟨req.threadId, inviter, req.inviteeDid, req.role, req.expiresAtUnixMs, req.nonce, []⟩

/-- `InviteThreadMember`; the result is the signed invitation before it is encoded. -/
def inviteThreadMember (req : InviteThreadMemberRequest) : Option (Except String ThreadInvitation × MemberServer) :=
  if req.threadId = "" ∨ req.inviteeDid = "" ∨ req.nonce = [] then some (.error "invalid thread invite", K)
  else if req.role ≠ .observer then some (.error "new members must start as observers", K)
  else asCreator K env authorization req.threadId "only thread creator may invite members" fun th owner K =>
    let invite := invitationOf req (if owner ≠ "" then owner else th.creatorDid)
    let save (signature : List UInt8) : Option (Except String ThreadInvitation × MemberServer) :=
      some (finish K { invite with signature }
        (saveInvite K env req.threadId req.inviteeDid req.role req.nonce req.expiresAtUnixMs))
    if owner ≠ "" then match Identity.verifyDID C owner invite.unsigned req.signature with
      | none => none
      | some (.ok true) => save req.signature
      | some _ => some (.error "invalid invite signature", K)
    else save (C.sign K.privateKey invite.unsigned)

/-- `pb.RemoveThreadMemberRequest`. -/
structure RemoveThreadMemberRequest where
  threadId : String
  memberDid : String
deriving DecidableEq

/-- `RemoveThreadMember`; the result is the new epoch. -/
def removeThreadMember (req : RemoveThreadMemberRequest) : Option (Except String Nat × MemberServer) :=
  if req.threadId = "" ∨ req.memberDid = "" then some (.error "thread_id and member_did are required", K)
  else asCreator K env authorization req.threadId "only thread creator may remove members" fun _ _ K =>
    match env.fails .listMembers with
    | some err => some (.error err, K)
    | none =>
      let (result, K) :=
        if (K.db.listMembers req.threadId).any fun m => m.did = req.memberDid ∧ votes m.role then
          proposeVoterChange K env req.threadId req.memberDid false
        else (.ok (), K)
      match result with
      | .error err => some (.error ("commit voter removal: " ++ err), K)
      | .ok () => match removeMemberWithEpoch K env req.threadId req.memberDid with
        | .error err => some (.error err, K)
        | .ok (epoch, K) => some (.ok epoch, K)

/-- `pb.PromoteThreadMemberRequest`: no proof, or what decoding it gives. -/
structure PromoteThreadMemberRequest where
  threadId : String
  memberDid : String
  catchupProof : Option (Except String ThreadCatchupProof)

/-- `verifyCatchupProof`; there is no result when `ed25519.Verify` panics. -/
def verifyCatchupProof (threadID observerDID : String) (raw : Except String ThreadCatchupProof) :
    Option (Except String Unit) :=
  match raw with
  | .error err => some (.error ("unmarshal catchup proof: " ++ err))
  | .ok proof =>
    if proof.threadId ≠ threadID ∨ proof.observerDid ≠ observerDID ∨ proof.issuedAtUnixMs ≤ 0 ∨
        proof.signature = [] then some (.error "invalid catchup proof")
    else if env.now - proof.issuedAtUnixMs < -60000 ∨ 60000 < env.now - proof.issuedAtUnixMs then
      some (.error "catchup proof is expired")
    else match Identity.verifyDID C observerDID proof.unsigned proof.signature with
      | none => none
      | some (.ok true) => match committedHead K env threadID with
        | .error err => some (.error err)
        | .ok (height, hash) =>
          if proof.committedHeight ≠ height ∨ proof.headBlockHash ≠ hash then
            some (.error "observer catchup proof does not match current committed head")
          else some (.ok ())
      | some _ => some (.error "invalid catchup proof signature")

/-- The end of `PromoteThreadMember`, when the change is committed: the descriptor is sent again. -/
def finishPromotion (threadID did : String) : Except String (MemberRow × Nat) × MemberServer :=
  let woken : Except String Unit × MemberServer := match getThread K.toServer env.toEnv threadID with
    | .error _ => (.ok (), K)
    | .ok updated =>
      let (result, S) := enqueueThreadWake K.toServer env.toEnv updated
      (result, { K with toServer := S })
  let K := woken.2
  match woken.1 with
  | .error err => (.error ("re-send descriptor after promotion: " ++ err), K)
  | .ok () => match promoteMemberWithEpoch K env threadID did with
    | .error err => (.error err, K)
    | .ok (m, epoch, K) => (.ok (m, epoch), K)

/-- `PromoteThreadMember`; the result is the member and the new epoch. -/
def promoteThreadMember (req : PromoteThreadMemberRequest) :
    Option (Except String (MemberRow × Nat) × MemberServer) :=
  match req.catchupProof with
  | none => some (.error "thread_id, member_did, and catchup_proof are required", K)
  | some raw =>
    if req.threadId = "" ∨ req.memberDid = "" then
      some (.error "thread_id, member_did, and catchup_proof are required", K)
    else asCreator K env authorization req.threadId "only thread creator may promote members" fun _ _ K =>
      match env.fails .listMembers with
      | some err => some (.error err, K)
      | none =>
        if ¬(K.db.listMembers req.threadId).any fun m => m.did = req.memberDid ∧ m.role = .observer then
          some (.error "only an existing observer may be promoted", K)
        else match verifyCatchupProof C K env req.threadId req.memberDid raw with
          | none => none
          | some (.error err) => some (.error err, K)
          | some (.ok ()) => match proposeVoterChange K env req.threadId req.memberDid true with
            | (.error err, K) => some (.error ("commit voter promotion: " ++ err), K)
            | (.ok (), K) => some (finishPromotion K env req.threadId req.memberDid)

/-- `VerifyRecoveryKeyEnvelopeCreator`; there is no result when `ed25519.Verify` panics. -/
def verifyRecoveryKeyEnvelopeCreator (creatorDID : String) (e : ThreadKeyEnvelope) : Option (Except String Unit) :=
  if creatorDID = "" ∨ e.recoveryEnvelope = false ∨ e.authorSignature = [] then
    some (.error "signed recovery key envelope required")
  else match Identity.verifyDID C creatorDID e.unsigned e.authorSignature with
    | none => none
    | some (.ok true) => some (.ok ())
    | some _ => some (.error "invalid recovery key envelope signature")

/-- The part of `PutThreadKeyEnvelope` for a recovery envelope, which is saved before it is published. -/
def putRecoveryEnvelope (creatorDID : String) (e : ThreadKeyEnvelope) : Option (Except String Unit × MemberServer) :=
  match verifyRecoveryKeyEnvelopeCreator C creatorDID e with
  | none => none
  | some (.error err) => some (.error err, K)
  | some (.ok ()) => match saveRecoveryKeyEnvelope K env e with
    | .error err => some (.error err, K)
    | .ok K => match env.breaks .publish with
      | some err => some (.error ("publish replayable recovery envelope: " ++ err), K)
      | none => match env.breaks .gossip with
        | some err => some (.error ("replicate recovery key envelope: " ++ err), K)
        | none => some (.ok (), K)

/-- `PutThreadKeyEnvelope`. -/
def putThreadKeyEnvelope (e : ThreadKeyEnvelope) : Option (Except String Unit × MemberServer) :=
  if e.threadId = "" ∨ e.recoveryEnvelope = false ∧ e.recipientDid = "" then
    some (.error "valid thread key envelope required", K)
  else asCreator K env authorization e.threadId "only thread creator may distribute epoch keys" fun th _ K =>
    match env.fails .membershipEpoch with
    | some err => some (.error err, K)
    | none =>
      if e.encryptionEpoch ≠ K.db.membershipEpoch e.threadId then
        some (.error ("key envelope must use current encryption epoch " ++
          toString (K.db.membershipEpoch e.threadId)), K)
      else if e.recoveryEnvelope then putRecoveryEnvelope C K env th.creatorDid e
      else match env.fails .listMembers with
        | some err => some (.error err, K)
        | none =>
          if e.recipientDid ∉ (K.db.listMembers e.threadId).map MemberRow.did then
            some (.error "key-envelope recipient is not a thread member", K)
          else some (finish K () (saveKeyEnvelope K env e))

/-! ## AcceptThreadInvite -/

/-- `pb.AcceptThreadInviteRequest`, with what decoding the invitation gives. -/
structure AcceptThreadInviteRequest where
  threadId : String
  invite : Except String ThreadInvitation

/-- `AcceptThreadInvite`; there is no result when `ed25519.Verify` panics. -/
def acceptThreadInvite (req : AcceptThreadInviteRequest) : Option (Except String Thread × MemberServer) :=
  if req.threadId = "" then some (.error "thread id required", K)
  else match req.invite with
  | .error err => some (.error err, K)
  | .ok invite =>
    if invite.threadId ≠ req.threadId ∨ invite.expiresAtUnixMs ≤ env.now then
      some (.error "invalid or expired invite", K)
    else match Identity.verifyDID C invite.inviterDid invite.unsigned invite.signature with
    | none => none
    | some (.ok true) =>
      let (agent, sessions) := K.sessions.authenticate env.now (bearerToken authorization)
      let K := { K with sessions }
      match agent with
      | .error err => some (.error err, K)
      | .ok invitee =>
        if invitee ≠ invite.inviteeDid then some (.error "invitee does not match session", K)
        else match acceptInviteWithEpoch K env req.threadId invitee invite.nonce with
          | .error err => some (.error err, K)
          | .ok K => some (getThread K.toServer env.toEnv req.threadId, K)
    | some _ => some (.error "invalid invite signature", K)

/-! ## Authority -/

/-- The calls that only the creator may make. -/
inductive CreatorCall
  | invite (req : InviteThreadMemberRequest)
  | promote (req : PromoteThreadMemberRequest)
  | remove (req : RemoveThreadMemberRequest)
  | putKey (envelope : ThreadKeyEnvelope)

namespace CreatorCall

/-- The thread a call is about. -/
def threadId : CreatorCall → String
  | invite req => req.threadId
  | promote req => req.threadId
  | remove req => req.threadId
  | putKey envelope => envelope.threadId

/-- The server after a call. -/
def serve : CreatorCall → MemberServer
  | invite req => ((inviteThreadMember C K env authorization req).map Prod.snd).getD K
  | promote req => ((promoteThreadMember C K env authorization req).map Prod.snd).getD K
  | remove req => ((removeThreadMember K env authorization req).map Prod.snd).getD K
  | putKey envelope => ((putThreadKeyEnvelope C K env authorization envelope).map Prod.snd).getD K

end CreatorCall

variable {C K env authorization} {T : String}

theorem Unchanged.refl (K : MemberServer) : K.Unchanged K :=
  ⟨rfl, fun _ => .rfl, fun _ => .rfl, fun _ => .rfl, fun _ => .rfl, fun _ => .rfl, rfl⟩

/-- To look up a session changes nothing that is stored. -/
theorem unchanged_scopedOwner :
    K.Unchanged { K with toServer := (scopedOwner K.toServer env.toEnv authorization).2 } := by
  have hdb := @scopedOwner_db K.toServer env.toEnv authorization
  refine ⟨?_, fun r => ?_, fun r => ?_, fun _ => .rfl, fun _ => .rfl, fun _ => .rfl, scopedOwner_outbox⟩
  · exact congrArg Database.toStore hdb
  · exact iff_of_eq (congrArg (r ∈ ·.members.rows) hdb)
  · exact iff_of_eq (congrArg (r ∈ ·.membershipEpochs.rows) hdb)

variable (K env authorization T) in
/-- The thread is stored, and the call has no session, while there is at most one, or is its creator's. -/
def Admitted : Prop :=
  ∃ th, K.db.threads.lookup T = some th ∧
    (bearerToken authorization = "" ∧ (K.sessions.multipleAgents env.now).1 = false ∨
      Caller K.toServer env.toEnv authorization th.creatorDid)

/-- What the creator's calls begin with lets through those that are admitted. -/
theorem authorizeCreator_cases (refusal : String) :
    (∃ err K', authorizeCreator K env authorization T refusal = (.error err, K') ∧ K.Unchanged K') ∨
      Admitted K env authorization T := by
  unfold authorizeCreator
  match hget : getThread K.toServer env.toEnv T with
  | .error err => exact .inl ⟨err, K, rfl, .refl K⟩
  | .ok th =>
    have hsame := @unchanged_scopedOwner K env authorization
    have hcaller (owner : String) := @caller_of_scopedOwner K.toServer env.toEnv authorization owner
    match howner : scopedOwner K.toServer env.toEnv authorization with
    | (.error err, S) =>
      rw [howner] at hsame
      exact .inl ⟨err, _, rfl, hsame⟩
    | (.ok owner, S) =>
      rw [howner] at hsame hcaller
      dsimp only
      split
      · exact .inl ⟨refusal, _, rfl, hsame⟩
      rename_i hallowed
      obtain ⟨hmem, hid⟩ := getThread_eq_ok hget
      refine .inr ⟨th, Table.lookup_eq_some.mpr ⟨hmem, hid⟩, ?_⟩
      by_cases hempty : owner = ""
      · -- The DID of a session is not empty, so there is none.
        subst hempty
        refine .inl ?_
        unfold scopedOwner at howner
        dsimp only at howner
        split at howner
        · rename_i htoken
          refine ⟨htoken, ?_⟩
          by_contra hmany
          rw [if_pos (by simpa using hmany)] at howner
          cases howner
        · exact absurd rfl (SessionManager.ne_of_authenticate (Prod.ext (Prod.mk.inj howner).1 rfl))
      · have hcreator : owner = th.creatorDid := by
          by_contra hne
          exact hallowed ⟨hempty, hne⟩
        have hauthor := hcaller owner rfl
        rw [authorOf, if_pos hempty] at hauthor
        exact .inr (hcreator ▸ hauthor)

theorem asCreator_admitted {α : Type} {refusal : String}
    {act : Thread → String → MemberServer → Option (Except String α × MemberServer)}
    (h : ¬K.Unchanged (((asCreator K env authorization T refusal act).map Prod.snd).getD K)) :
    Admitted K env authorization T := by
  rcases authorizeCreator_cases (K := K) (T := T) refusal with ⟨err, K', heq, hsame⟩ | hadmitted
  · refine absurd ?_ h
    rw [asCreator, heq]
    exact hsame
  · exact hadmitted

/-- A call that changes what is stored is admitted. -/
theorem CreatorCall.admitted (call : CreatorCall) (h : ¬K.Unchanged (call.serve C K env authorization)) :
    call.threadId ≠ "" ∧ Admitted K env authorization call.threadId := by
  have hrefl := Unchanged.refl K
  cases call with
  | invite req =>
    simp only [serve, inviteThreadMember] at h
    split at h
    · exact absurd hrefl h
    rename_i hvalid
    split at h
    · exact absurd hrefl h
    exact ⟨fun h => hvalid (.inl h), asCreator_admitted h⟩
  | promote req =>
    simp only [serve, promoteThreadMember] at h
    split at h
    · exact absurd hrefl h
    split at h
    · exact absurd hrefl h
    rename_i hvalid
    exact ⟨fun h => hvalid (.inl h), asCreator_admitted h⟩
  | remove req =>
    simp only [serve, removeThreadMember] at h
    split at h
    · exact absurd hrefl h
    rename_i hvalid
    exact ⟨fun h => hvalid (.inl h), asCreator_admitted h⟩
  | putKey envelope =>
    simp only [serve, putThreadKeyEnvelope] at h
    split at h
    · exact absurd hrefl h
    rename_i hvalid
    exact ⟨fun h => hvalid (.inl h), asCreator_admitted h⟩

/-- An invitation that expires at the given time. -/
def invitation (T : String) (expiresAt : Int) : InviteThreadMemberRequest :=
  ⟨T, "guest", .observer, expiresAt, [1], []⟩

/-- An environment in which nothing fails. -/
def faultless (now : Int) : MemberEnv := ⟨⟨now, fun _ => none⟩, fun _ => none, fun _ _ _ s => (.ok (), s)⟩

/-- Without a session, an invitation to any stored thread is saved. -/
theorem mem_invites_of_unscoped {th : Thread} {now expiresAt : Int} (hT : T ≠ "")
    (hth : K.db.threads.lookup T = some th) (htoken : bearerToken authorization = "")
    (hone : (K.sessions.multipleAgents now).1 = false) (hlater : now < expiresAt) :
    ⟨T, "guest", .observer, [1], expiresAt, 0⟩ ∈
      ((CreatorCall.invite (invitation T expiresAt)).serve C K (faultless now) authorization).invites.rows := by
  have hguest : "guest" ≠ "" := by decide
  have howner : (scopedOwner K.toServer (faultless now).toEnv authorization).1 = .ok "" := by
    rw [scopedOwner, if_pos htoken]
    exact if_neg (by rw [faultless, hone]; decide)
  have hget : getThread K.toServer (faultless now).toEnv T = .ok th := by
    rw [getThread]
    simp only [faultless, hth]
  have hsave (K : MemberServer) : saveInvite K (faultless now) T "guest" .observer [1] expiresAt =
      .ok { K with invites := K.invites.insertOrReplace ⟨T, "guest", .observer, [1], expiresAt, 0⟩ } := by
    rw [saveInvite, if_neg]
    · rfl
    · rintro (h | h | h | h | h)
      · exact hT h
      · exact hguest h
      · cases h
      · cases h
      · exact absurd hlater (not_lt.mpr h)
  have hauthorize : authorizeCreator K (faultless now) authorization (invitation T expiresAt).threadId
      "only thread creator may invite members" = (.ok (th, ""),
        { K with toServer := (scopedOwner K.toServer (faultless now).toEnv authorization).2 }) := by
    rw [authorizeCreator, show (invitation T expiresAt).threadId = T from rfl, hget]
    generalize scopedOwner K.toServer (faultless now).toEnv authorization = x at howner
    obtain ⟨_, S⟩ := x
    obtain rfl := howner
    exact if_neg fun h => h.1 rfl
  have hvalid : ¬((invitation T expiresAt).threadId = "" ∨ (invitation T expiresAt).inviteeDid = "" ∨
      (invitation T expiresAt).nonce = []) := by
    rintro (h | h | h)
    · exact hT h
    · exact hguest h
    · cases h
  have hrole : ¬(invitation T expiresAt).role ≠ .observer := not_not.mpr rfl
  have hunscoped : ¬("" : String) ≠ "" := not_not.mpr rfl
  rw [CreatorCall.serve, inviteThreadMember, if_neg hvalid, if_neg hrole, asCreator, hauthorize]
  dsimp only
  rw [if_neg hunscoped]
  have hfinish {α : Type} (K : MemberServer) (a : α) :
      (finish K a (saveInvite K (faultless now) (invitation T expiresAt).threadId
        (invitation T expiresAt).inviteeDid (invitation T expiresAt).role (invitation T expiresAt).nonce
        (invitation T expiresAt).expiresAtUnixMs)).2 =
      { K with invites := K.invites.insertOrReplace ⟨T, "guest", .observer, [1], expiresAt, 0⟩ } :=
    congrArg (fun r => (finish K a r).2) (hsave K)
  rw [Option.map_some, Option.getD_some, hfinish]
  exact Table.mem_insertOrReplace.mpr (.inr rfl)

/-! ## Accepting -/

variable (C K env authorization) in
/-- What `AcceptThreadInvite` asks of a request. -/
structure Acceptable (req : AcceptThreadInviteRequest) (invite : ThreadInvitation) : Prop where
  decoded : req.invite = .ok invite
  named : req.threadId ≠ ""
  thread : invite.threadId = req.threadId
  fresh : env.now < invite.expiresAtUnixMs
  signed : Identity.verifyDID C invite.inviterDid invite.unsigned invite.signature = some (.ok true)
  session : (K.sessions.authenticate env.now (bearerToken authorization)).1 = .ok invite.inviteeDid
  nonce : invite.nonce ≠ []
  saved : ∃ row, K.invites.lookup (req.threadId, invite.inviteeDid, invite.nonce) = some row ∧
    row.acceptedAt = 0 ∧ env.now < row.expiresAt
  works : env.breaks .acceptInvite = none ∧ env.fails .getThread = none

variable (C) in
/-- An invitation of the creator's, with the creator's signature. -/
def CreatorSigned (creator : String) (req : AcceptThreadInviteRequest) : Prop :=
  ∃ invite, req.invite = .ok invite ∧ invite.inviterDid = creator ∧
    Identity.verifyDID C creator invite.unsigned invite.signature = some (.ok true)

variable (C K env authorization) in
/-- `AcceptThreadInvite` succeeds. -/
def Accepts (req : AcceptThreadInviteRequest) : Prop :=
  ∃ th K', acceptThreadInvite C K env authorization req = some (.ok th, K')

theorem acceptInviteWithEpoch_eq_ok {invitee : String} {nonce : List UInt8} {K' : MemberServer}
    (h : acceptInviteWithEpoch K env T invitee nonce = .ok K') :
    nonce ≠ [] ∧ env.breaks .acceptInvite = none ∧
      ∃ row, K.invites.lookup (T, invitee, nonce) = some row ∧ row.acceptedAt = 0 ∧ env.now < row.expiresAt := by
  unfold acceptInviteWithEpoch at h
  split at h
  · cases h
  rename_i hvalid
  split at h
  · cases h
  rename_i hworks
  split at h
  · cases h
  rename_i row hrow
  split at h
  · cases h
  rename_i hopen
  rw [not_or, not_not, not_le] at hopen
  exact ⟨fun h => hvalid (.inr (.inr h)), hworks, row, hrow, hopen⟩

theorem acceptable_of_accepts {req : AcceptThreadInviteRequest} (h : Accepts C K env authorization req) :
    ∃ invite, Acceptable C K env authorization req invite := by
  obtain ⟨th, K', h⟩ := h
  unfold acceptThreadInvite at h
  split at h
  · cases h
  rename_i hnamed
  split at h
  · cases h
  rename_i invite hdecoded
  split at h
  · cases h
  rename_i hvalid
  rw [not_or, not_not, not_le] at hvalid
  split at h
  · cases h
  · rename_i hsigned
    dsimp only at h
    split at h
    · cases h
    rename_i invitee hsession
    split at h
    · cases h
    rename_i hinvitee
    rw [not_not] at hinvitee
    subst hinvitee
    split at h
    · cases h
    rename_i K₁ haccept
    obtain ⟨hnonce, hworks, hsaved⟩ := acceptInviteWithEpoch_eq_ok haccept
    refine ⟨invite, hdecoded, hnamed, hvalid.1, hvalid.2, hsigned, hsession, hnonce, hsaved, hworks, ?_⟩
    have hget : getThread K₁.toServer env.toEnv req.threadId = .ok th := (Prod.mk.inj (Option.some.inj h)).1
    unfold getThread at hget
    split at hget
    · cases hget
    · assumption
  · cases h

theorem accepts_of_acceptable {req : AcceptThreadInviteRequest} {invite : ThreadInvitation} {th : Thread}
    (h : Acceptable C K env authorization req invite) (hth : K.db.threads.lookup req.threadId = some th) :
    Accepts C K env authorization req := by
  obtain ⟨row, hrow, haccepted, hexpires⟩ := h.saved
  have hinvitee : invite.inviteeDid ≠ "" := SessionManager.ne_of_authenticate (Prod.ext h.session rfl)
  refine ⟨th, ?_⟩
  unfold acceptThreadInvite
  rw [if_neg h.named, h.decoded]
  dsimp only
  rw [if_neg (by rw [not_or, not_not, not_le]; exact ⟨h.thread, h.fresh⟩), h.signed]
  dsimp only
  rw [h.session]
  dsimp only
  rw [if_neg (not_not.mpr rfl), acceptInviteWithEpoch,
    if_neg (by rintro (h' | h' | h') <;> [exact h.named h'; exact hinvitee h'; exact h.nonce h']), h.works.1]
  dsimp only
  rw [hrow]
  dsimp only
  rw [if_neg (by rw [not_or, not_not, not_le]; exact ⟨haccepted, hexpires⟩)]
  refine ⟨_, congrArg some (Prod.ext ?_ rfl)⟩
  simp only [getThread, h.works.2, advanceMembershipEpoch, hth]

/-- **When membership is the creator's**: the calls about a thread change what is stored for its creator
only, exactly if the caller has a session, or unscoped calls are refused, or the daemon is the creator; and
only invitations of the creator's are accepted, exactly if those that pass the checks name the creator as
the inviter. -/
theorem creator_authority_iff (C : Ed25519) (K : MemberServer) (authorization : List String) (T : String) :
    (∀ now : Int, (∀ env : MemberEnv, env.now = now → ∀ call : CreatorCall, call.threadId = T →
        ¬K.Unchanged (call.serve C K env authorization) →
          ∃ th, K.db.threads.lookup T = some th ∧ Caller K.toServer env.toEnv authorization th.creatorDid) ↔
      T = "" ∨ bearerToken authorization ≠ "" ∨ (K.sessions.multipleAgents now).1 = true ∨
        ∀ th, K.db.threads.lookup T = some th → th.creatorDid = K.did) ∧
    ∀ (env : MemberEnv) (req : AcceptThreadInviteRequest) (th : Thread),
      K.db.threads.lookup req.threadId = some th →
      ((Accepts C K env authorization req → CreatorSigned C th.creatorDid req) ↔
        ∀ invite, Acceptable C K env authorization req invite → invite.inviterDid = th.creatorDid) := by
  refine ⟨fun now => ⟨fun h => ?_, ?_⟩, fun env req th hth => ⟨fun h invite hok => ?_, fun h haccepts => ?_⟩⟩
  · by_contra hnot
    simp only [not_or, not_forall, not_not, Bool.not_eq_true] at hnot
    obtain ⟨hT, htoken, hone, th, hth, hother⟩ := hnot
    -- Of two invitations with the same key at most one is stored already.
    obtain ⟨expiresAt, hlater, hnew⟩ : ∃ e : Int, now < e ∧
        (⟨T, "guest", .observer, [1], e, 0⟩ : InviteRow) ∉ K.invites.rows := by
      by_cases hfirst : (⟨T, "guest", .observer, [1], now + 1, 0⟩ : InviteRow) ∈ K.invites.rows
      · refine ⟨now + 2, by omega, fun hsecond => ?_⟩
        have heq := congrArg InviteRow.expiresAt (Table.eq_of_key_eq hfirst hsecond rfl)
        dsimp only at heq
        omega
      · exact ⟨now + 1, by omega, hfirst⟩
    have hmem := mem_invites_of_unscoped (C := C) hT hth htoken hone hlater
    obtain ⟨th', hth', hcaller⟩ := h (faultless now) rfl (.invite (invitation T expiresAt)) rfl
      fun hsame => hnew ((hsame.invites _).mp hmem)
    obtain rfl := Option.some.inj (hth.symm.trans hth')
    rw [Caller, if_pos htoken] at hcaller
    exact hother hcaller
  · rintro hcond env rfl call rfl hchanged
    obtain ⟨hT, th, hth, hunscoped | hcaller⟩ := call.admitted hchanged
    · rcases hcond with h | h | h | h
      · exact absurd h hT
      · exact absurd hunscoped.1 h
      · rw [hunscoped.2] at h
        cases h
      · refine ⟨th, hth, ?_⟩
        rw [Caller, if_pos hunscoped.1]
        exact h th hth
    · exact ⟨th, hth, hcaller⟩
  · obtain ⟨invite', hdecoded, hinviter, -⟩ := h (accepts_of_acceptable hok hth)
    obtain rfl := Except.ok.inj (hok.decoded.symm.trans hdecoded)
    exact hinviter
  · obtain ⟨invite, hok⟩ := acceptable_of_accepts haccepts
    refine ⟨invite, hok.decoded, h invite hok, ?_⟩
    rw [← h invite hok]
    exact hok.signed

namespace Lodger

open Tendermint.Quartet (did1 did2 did3 did4 key checksum)

/-- The thread of the first agent. -/
def house : Thread := ⟨"t", did1, [did1, did2], 1, 0, 1000, 0, []⟩

/-- A daemon of the given agent that stores the thread; the third agent has been invited and has a session,
and the fourth one is an observer. -/
def host (did : String) (sk : List UInt8) (agent : String) (hagent : agent ≠ "") : MemberServer where
  did := did
  sessions := ⟨Table.empty.insertOrReplace (Sha256.sum256 (bytes "token"), ⟨agent, hagent, 1000⟩)⟩
  db := { Database.empty with
    threads := Table.empty.insertOrReplace house
    members := (Table.empty.insertOrReplace ⟨"t", did1, .admin, 1⟩).insertOrReplace ⟨"t", did4, .observer, 1⟩ }
  outbox := []
  privateKey := sk
  invites := Table.empty.insertOrReplace ⟨"t", did3, .observer, [9], 1000, 0⟩
  keyEnvelopes := .empty
  recoveryKeyEnvelopes := .empty

/-- The daemon of the second agent. -/
def inn : MemberServer := host did2 (key 2) did3 (by decide +kernel)

/-- A proof of the fourth agent that it has no blocks, as the daemon has none. -/
def proof : ThreadCatchupProof :=
  let p : ThreadCatchupProof := ⟨"t", did4, 0, "", 1, []⟩
  { p with signature := checksum.sign (key 4) p.unsigned }

/-- A key for the fourth agent. -/
def envelope : ThreadKeyEnvelope :=
  ⟨"t", 1, did4, List.replicate 32 0, List.replicate 24 0, [1], false, []⟩

/-- An invitation of the third agent that the given agent has signed. -/
def invitationBy (inviter : String) (sk : List UInt8) : ThreadInvitation :=
  let i : ThreadInvitation := ⟨"t", inviter, did3, .observer, 1000, [9], []⟩
  { i with signature := checksum.sign sk i.unsigned }

/-- **Others than the creator change the members**: without a session, on a node that is not the creator's,
one can invite, remove and promote members and replace keys; and whoever has been invited may sign the
invitation themselves. -/
theorem lodger_rules_the_house :
    ¬Caller inn.toServer (faultless 1).toEnv [] house.creatorDid ∧
    (⟨"t", "guest", .observer, [1], 1000, 0⟩ ∈
        ((CreatorCall.invite (invitation "t" 1000)).serve checksum inn (faultless 1) []).invites.rows ∧
      ⟨"t", "guest", .observer, [1], 1000, 0⟩ ∉ inn.invites.rows) ∧
    (⟨"t", did4, .observer, 1⟩ ∉
        ((CreatorCall.remove ⟨"t", did4⟩).serve checksum inn (faultless 1) []).db.members.rows ∧
      ⟨"t", did4, .observer, 1⟩ ∈ inn.db.members.rows) ∧
    (⟨"t", did4, .voter, 1⟩ ∈
        ((CreatorCall.promote ⟨"t", did4, some (.ok proof)⟩).serve checksum inn (faultless 1) []).db.members.rows ∧
      ⟨"t", did4, .voter, 1⟩ ∉ inn.db.members.rows) ∧
    (((CreatorCall.putKey envelope).serve checksum inn (faultless 1) []).keyEnvelopes.rows ≠ [] ∧
      inn.keyEnvelopes.rows = []) ∧
    ((acceptThreadInvite checksum inn (faultless 1) ["Bearer token"]
        ⟨"t", .ok (invitationBy did3 (key 3))⟩).map (·.1.isOk) = some true ∧
      (invitationBy did3 (key 3)).inviterDid ≠ house.creatorDid) := by
  refine ⟨?_, ⟨?_, ?_⟩, ⟨?_, ?_⟩, ⟨?_, ?_⟩, ⟨?_, ?_⟩, ?_, ?_⟩ <;> decide +kernel

/-- The daemon of the creator. -/
def home : MemberServer := host did1 (key 1) did3 (by decide +kernel)

/-- On the creator's own node a call without a session is the creator's, and the invitation that the
creator has signed is accepted. -/
theorem creator_authority_home :
    (∀ env : MemberEnv, env.now = 1 → ∀ call : CreatorCall, call.threadId = "t" →
      ¬home.Unchanged (call.serve checksum home env []) →
        ∃ th, home.db.threads.lookup "t" = some th ∧ Caller home.toServer env.toEnv [] th.creatorDid) ∧
    ¬home.Unchanged ((CreatorCall.invite (invitation "t" 1000)).serve checksum home (faultless 1) []) ∧
    CreatorSigned checksum did1 ⟨"t", .ok (invitationBy did1 (key 1))⟩ := by
  have hstored : home.db.threads.lookup "t" = some house := by decide +kernel
  refine ⟨((creator_authority_iff checksum home [] "t").1 1).mpr (.inr (.inr (.inr fun th hth => ?_))), ?_, ?_⟩
  · obtain rfl := Option.some.inj (hstored.symm.trans hth)
    decide +kernel
  · intro hsame
    have hnew : (⟨"t", "guest", .observer, [1], 1000, 0⟩ : InviteRow) ∉ home.invites.rows := by decide +kernel
    exact hnew ((hsame.invites _).mp (by decide +kernel))
  · have haccepts : Accepts checksum home (faultless 1) ["Bearer token"]
        ⟨"t", .ok (invitationBy did1 (key 1))⟩ := by
      have hok : (acceptThreadInvite checksum home (faultless 1) ["Bearer token"]
          ⟨"t", .ok (invitationBy did1 (key 1))⟩).map (·.1.isOk) = some true := by decide +kernel
      unfold Accepts
      generalize acceptThreadInvite checksum home (faultless 1) ["Bearer token"] _ = result at hok
      match result, hok with
      | some (.ok th, K'), _ => exact ⟨th, K', rfl⟩
    refine ((creator_authority_iff checksum home ["Bearer token"] "t").2 (faultless 1)
      ⟨"t", .ok (invitationBy did1 (key 1))⟩ house hstored).mpr (fun invite hok => ?_) haccepts
    obtain rfl := Except.ok.inj hok.decoded
    rfl

end Lodger

end MemberServer

end MoltMesh.Rpc

import MoltMesh.Members
import MoltMesh.Session
import MoltMesh.Threadcrypto

/-!
# Appending to a thread

`daemon/rpc/server_threads.go`: the calls by which a client appends an entry to a
thread and adds an observer to it, and in `server.go` whom a call is made for.  A call
that carries an encrypted entry is checked against the members of the thread; a plain
one is not.
-/

namespace MoltMesh.Rpc

open MoltMesh.Lib Pb

/-- The calls of the server that may fail. -/
inductive Call
  | getThread
  | listMembers
  | membershipEpoch
  | enqueueEntry
  | saveMember
  /-- The actor of the thread is looked up or spawned. -/
  | activate
  /-- The actor is told that there is something to do. -/
  | tell
  /-- A message for a replica is put into the outbox. -/
  | wake (did : String)

/-- What the environment decides during one call. -/
structure Env where
  /-- `time.Now()` in milliseconds since 1970. -/
  now : Int
  /-- The errors of the calls that fail. -/
  fails : Call → Option String

/-- A `THREAD_INVITE` in the outbox. -/
structure Wake where
  toDid : String
  thread : Thread
deriving DecidableEq

/-- `Server`, as far as these calls go: the daemon's DID, the sessions, the database behind the thread
manager and the outbox. -/
structure Server where
  did : String
  sessions : SessionManager
  db : Database
  outbox : List Wake

variable (C : Ed25519) (S : Server) (env : Env)

/-! ## Whom a call is made for -/

/-- `bearerToken`, of the `authorization` values of a call. -/
def bearerToken (authorization : List String) : String :=
  let scheme := "Bearer ".toList
  match authorization.find? fun v => scheme.length < v.toList.length ∧ scheme <+: v.toList with
  | none => ""
  | some v => String.ofList (v.toList.drop scheme.length)

/-- `scopedOwner`. -/
def scopedOwner (authorization : List String) : Except String String × Server :=
  let token := bearerToken authorization
  if token = "" then
    let (multiple, sessions) := S.sessions.multipleAgents env.now
    let result := if multiple then
      .error "unscoped RPC is not allowed while multiple SDK agents are connected" else .ok ""
    (result, { S with sessions })
  else
    let (result, sessions) := S.sessions.authenticate env.now token
    (result, { S with sessions })

/-- The author of what a call appends: the owner of the session or, without one, the daemon. -/
def authorOf (owner : String) : String := if owner ≠ "" then owner else S.did

/-! ## The thread manager -/

/-- `GetThread`. -/
def getThread (threadID : String) : Except String Thread :=
  match env.fails .getThread with
  | some err => .error err
  | none => match S.db.threads.lookup threadID with
    | none => .error "thread not found"
    | some th => .ok th

/-- `ActorManager.AppendEntry`: the entry is enqueued, and its actor is woken up. -/
def managerAppendEntry (threadID : String) (entry : ThreadEntry) : Except String Unit × Server :=
  match env.fails .enqueueEntry with
  | some err => (.error err, S)
  | none =>
    let S := { S with db := { S.db with toStore := S.db.enqueueEntry threadID entry env.now } }
    match env.fails .activate with
    | some err => (.error ("activate thread " ++ threadID ++ " (entry remains durable): " ++ err), S)
    | none => match env.fails .tell with
      | some err => (.error err, S)
      | none => (.ok (), S)

/-- `enqueueThreadWake`: the descriptor for every other replica; the errors are joined. -/
def enqueueThreadWake (thread : Thread) : Except String Unit × Server :=
  let dids := thread.replicaDids.filter fun did => did ≠ S.did
  let errs := dids.filterMap fun did => (env.fails (.wake did)).map fun err => "wake " ++ did ++ ": " ++ err
  let sent := dids.filter fun did => (env.fails (.wake did)).isNone
  (if errs = [] then .ok () else .error ("\n".intercalate errs),
    { S with outbox := S.outbox ++ sent.map fun did => ⟨did, thread⟩ })

/-! ## AppendEntry -/

/-- `pb.AppendEntryRequest`. -/
structure AppendEntryRequest where
  threadId : String
  payload : List UInt8
  kind : String
  encryptedEntry : Option ThreadEntry
deriving DecidableEq

/-- `pb.AppendEntryResult`; its height is never set. -/
structure AppendEntryResult where
  threadId : String
  entryId : String
deriving DecidableEq

/-- The header under which the author of an encrypted entry has signed it. -/
def headerOf (threadID : String) (entry : ThreadEntry) : Threadcrypto.Header where
  threadID := threadID
  sequence := UInt64.ofNat entry.sequence
  previousBlockHash := entry.previousBlockHash
  authorDID := entry.authorDid
  kind := entry.kind
  membershipEpoch := UInt64.ofNat entry.membershipEpoch
  encryptionEpoch := UInt64.ofNat entry.encryptionEpoch
  nonce := entry.nonce

/-- The checks `AppendEntry` makes of an encrypted entry. -/
def checkEncrypted (threadID author : String) (entry : ThreadEntry) : Except String Unit :=
  if entry.authorDid ≠ author ∨ entry.encodingVersion ≠ 2 ∨ entry.nonce.length ≠ 24 ∨
      entry.authorSignature.length = 0 then .error "invalid encrypted thread entry"
  else match env.fails .listMembers with
  | some err => .error err
  | none =>
  if author ∉ (S.db.listMembers threadID).map MemberRow.did then
    .error "encrypted entry author is not a current thread member"
  else match env.fails .membershipEpoch with
  | some err => .error err
  | none =>
  let currentEpoch := S.db.membershipEpoch threadID
  if entry.membershipEpoch ≠ currentEpoch ∨ entry.encryptionEpoch ≠ currentEpoch then
    .error ("encrypted entry must use current membership and encryption epoch " ++ toString currentEpoch)
  else match Identity.pubKeyFromDID entry.authorDid with
  | .error err => .error err
  | .ok pub => match Threadcrypto.verify C pub (headerOf threadID entry) entry.payload
      entry.authorSignature with
    | .ok true => .ok ()
    | _ => .error "invalid encrypted thread entry signature"

/-- The entry `AppendEntry` hands to the thread manager. -/
def entryOf (req : AppendEntryRequest) (author : String) : Except String ThreadEntry :=
  match req.encryptedEntry with
  | none => .ok { authorDid := author, payload := req.payload, kind := req.kind, authorSig := "",
                  submittedAt := env.now }
  | some entry => match checkEncrypted C S env req.threadId author entry with
    | .error err => .error err
    | .ok () => .ok { entry with submittedAt := env.now }

/-- The end of `AppendEntry`, when the entry is in the database: the other replicas are woken up. -/
def acknowledge (threadID : String) (entry : ThreadEntry) : Except String AppendEntryResult × Server :=
  match getThread S env threadID with
  | .error err => (.error err, S)
  | .ok thread => match enqueueThreadWake S env thread with
    | (.error err, S) =>
      (.error ("entry is durable locally but replica wake enqueue failed: " ++ err), S)
    | (.ok (), S) => (.ok ⟨threadID, threadID ++ ":" ++ decimal entry.submittedAt⟩, S)

/-- `AppendEntry`. -/
def appendEntry (authorization : List String) (req : AppendEntryRequest) :
    Except String AppendEntryResult × Server :=
  match scopedOwner S env authorization with
  | (.error err, S) => (.error err, S)
  | (.ok owner, S) => match entryOf C S env req (authorOf S owner) with
    | .error err => (.error err, S)
    | .ok entry => match managerAppendEntry S env req.threadId entry with
      | (.error err, S) => (.error err, S)
      | (.ok (), S) => acknowledge S env req.threadId entry

/-! ## AddThreadReplica -/

/-- `pb.ThreadReplicaRequest`. -/
structure ThreadReplicaRequest where
  threadId : String
  replicaDid : String
deriving DecidableEq

/-- The entry that adds an observer. -/
def observerEntry (creator replicaDid : String) : ThreadEntry :=
  { authorDid := creator, payload := bytes replicaDid, kind := "membership:add-observer",
    authorSig := "", submittedAt := env.now }

/-- The observer is recorded in the epoch the thread is in. -/
def recordObserver (threadID replicaDid : String) : Except String Unit × Server :=
  let epoch := match env.fails .membershipEpoch with
    | some _ => 1
    | none => if 0 < S.db.membershipEpoch threadID then S.db.membershipEpoch threadID else 1
  match env.fails .saveMember with
  | some err => (.error ("record observer membership: " ++ err), S)
  | none => match S.db.saveMember ⟨threadID, replicaDid, .observer, epoch⟩ with
    | none => (.error "record observer membership: invalid thread member", S)
    | some db => (.ok (), { S with db })

/-- `AddThreadReplica`, up to where it waits for the observer to be committed; there is a thread only
if nothing is to be waited for. -/
def addThreadReplica (authorization : List String) (req : ThreadReplicaRequest) :
    Except String (Option Thread) × Server :=
  if req.threadId = "" ∨ req.replicaDid = "" then
    (.error "thread_id and replica_did are required", S)
  else match getThread S env req.threadId with
  | .error err => (.error err, S)
  | .ok th => match scopedOwner S env authorization with
    | (.error err, S) => (.error err, S)
    | (.ok owner, S) =>
      let creator := authorOf S owner
      if th.creatorDid ≠ creator then
        (.error "only the thread creator may add an observer", S)
      else if req.replicaDid ∈ th.replicaDids then (.ok (some th), S)
      else match managerAppendEntry S env th.id (observerEntry env creator req.replicaDid) with
        | (.error err, S) => (.error err, S)
        | (.ok (), S) => match recordObserver S env th.id req.replicaDid with
          | (.error err, S) => (.error err, S)
          | (.ok (), S) => (.ok none, S)

/-- One round of the loop in which `AddThreadReplica` waits; there is no result as long as the
observer is not in the descriptor. -/
def pollReplica (threadID replicaDid : String) : Option (Except String Thread) × Server :=
  match getThread S env threadID with
  | .error err => (some (.error err), S)
  | .ok updated =>
    if replicaDid ∉ updated.replicaDids then (none, S)
    else match enqueueThreadWake S env updated with
      | (.error err, S) => (some (.error err), S)
      | (.ok (), S) => (some (.ok updated), S)

end MoltMesh.Rpc

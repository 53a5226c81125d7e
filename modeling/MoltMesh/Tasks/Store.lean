import MoltMesh.Lib.Table
import MoltMesh.Lib.Trace

/-!
# The task store

`daemon/tasks/tasks.go`: the tables of tasks and of their deliveries, and the operations of
`Store` on them.  Every statement and every transaction is atomic, since the database has one
connection; a transaction that fails leaves nothing behind.

Values written as JSON are kept as values.  The actors through which calls are dispatched
order the calls and are left out, up to the errors they may return.
-/

namespace MoltMesh.Tasks

open MoltMesh.Lib

/-! ## Statuses -/

/-- `pb.TaskStatus`; on the wire it may be any number. -/
inductive TaskStatus
  | unspecified
  | submitted
  | working
  | completed
  | failed
  | cancelled
  | other (n : Int)
deriving DecidableEq

/-- `knownStatuses`. -/
def knownStatuses : TaskStatus → Bool
  | .unspecified => false
  | .other _ => false
  | _ => true

/-- `validTransitions`. -/
def validTransitions : TaskStatus → TaskStatus → Bool
  | .submitted, .working => true
  | .submitted, .cancelled => true
  | .submitted, .failed => true
  | .working, .completed => true
  | .working, .failed => true
  | .working, .cancelled => true
  | _, _ => false

/-- `canTransition`; there is no result when an assertion fails. -/
def canTransition (source target : TaskStatus) : Option Bool :=
  if knownStatuses source ∧ knownStatuses target then some (validTransitions source target) else none

/-- `terminal`. -/
def terminal (status : TaskStatus) : Bool := status = .completed ∨ status = .failed ∨ status = .cancelled

/-! ## The tables -/

/-- `pb.Artifact`. -/
structure Artifact where
  cid : String
  mimeType : String
  size : Int
  inline : List UInt8
  uri : String
  name : String
deriving DecidableEq

/-- A row of `tasks`; a column that may be `NULL` is optional. -/
structure TaskRow where
  id : String
  initiator : String
  assignee : String
  threadId : String
  skill : String
  status : TaskStatus
  inputArtifacts : List Artifact
  outputArtifacts : Option (List Artifact)
  metadata : List (String × String)
  createdAt : Int
  updatedAt : Int
  error : Option String
  idempotencyKey : String
  maxAttempts : Int
  deadlineAt : Option Int
  leaseToken : Option String
  leaseOwner : Option String
  leaseExpiresAt : Option Int
  attempt : Nat
deriving DecidableEq

/-- A row of `task_deliveries`. -/
structure DeliveryRow where
  sequence : Nat
  taskId : String
  availableAt : Int
deriving DecidableEq

/-- The tables; the sequence numbers of deliveries are not used again. -/
structure Store where
  tasks : Table TaskRow TaskRow.id
  deliveries : Table DeliveryRow DeliveryRow.sequence
  lastSequence : Nat

/-- A new database. -/
def Store.empty : Store := ⟨.empty, .empty, 0⟩

/-- `pb.Task`. -/
structure Task where
  id : String
  initiator : String
  assignee : String
  threadId : String
  skill : String
  status : TaskStatus
  inputArtifacts : List Artifact
  outputArtifacts : List Artifact
  metadata : List (String × String)
  createdAt : Int
  updatedAt : Int
  error : String
deriving DecidableEq

/-- `scanTask`, of a row with a known status. -/
def TaskRow.task (r : TaskRow) : Task :=
  { r with outputArtifacts := r.outputArtifacts.getD [], error := r.error.getD "" }

/-- `pb.TaskLease`. -/
structure TaskLease where
  taskId : String
  leaseToken : String
  expiresAtUnixMs : Int
  attempt : UInt32
deriving DecidableEq

/-- The errors of the store. -/
inductive TaskError
  /-- `ErrInvalidTask`. -/
  | invalidTask (reason : String)
  /-- `ErrInvalidTransition`, with the two statuses. -/
  | invalidTransition (source target : TaskStatus)
  /-- `ErrInvalidTransition`, of `FinishLease`. -/
  | notAnOutcome
  /-- `ErrLeaseConflict`. -/
  | leaseConflict
  /-- `ErrLeaseConflict: worker is not task assignee`. -/
  | notAssignee
  /-- `ErrLeaseExpired`. -/
  | leaseExpired
  /-- `ErrAttemptsExhausted`. -/
  | attemptsExhausted
  /-- `max attempts must be positive`. -/
  | maxAttempts
  /-- `sql.ErrNoRows`. -/
  | noRows
  /-- `task %s: sql.ErrNoRows`. -/
  | noTask (id : String)
  /-- The id or the idempotency key of a new task is taken. -/
  | unique
  | db (err : String)
deriving DecidableEq

/-- The statements and calls that may fail. -/
inductive Call
  /-- A transaction is begun, and what it looks at is read. -/
  | read
  /-- A write, or the commit of a transaction. -/
  | write
  | get
  | lookupKey
  | insertTask
  | insertDelivery
  /-- Random bytes are read. -/
  | random
  /-- Work is handed to an actor. -/
  | dispatch
  /-- The actor of a task is looked up or spawned. -/
  | taskExecutor

/-- What the environment decides during one operation. -/
structure Env where
  /-- `time.Now()` in nanoseconds since 1970. -/
  nanos : Int
  /-- What `uuid.New` returns. -/
  uuid : String
  /-- The text of the random bytes, if they are read. -/
  token : String
  /-- The errors of the calls that fail. -/
  fails : Call → Option String

/-- `UnixMilli` of a time in nanoseconds. -/
def unixMilli (nanos : Int) : Int := nanos / 1000000

/-- `time.Now().UnixMilli()`. -/
def Env.now (env : Env) : Int := unixMilli env.nanos

namespace Store

variable (s : Store) (env : Env)

/-! ## Statements -/

/-- `UPDATE tasks SET f WHERE p`. -/
def update (p : TaskRow → Bool) (f : TaskRow → TaskRow) (hf : ∀ r, (f r).id = r.id) : Store :=
  { s with tasks := s.tasks.updateWhere p f hf }

/-- A statement that writes, or a transaction that ends in a commit. -/
def write (s' : Store) (result : Except TaskError Unit) : Except TaskError Unit × Store :=
  match env.fails .write with
  | some err => (.error (.db err), s)
  | none => (result, s')

/-- `get`; there is no result when the stored status is not known and an assertion fails. -/
def get (id : String) : Option (Except TaskError Task) :=
  match env.fails .get with
  | some err => some (.error (.db err))
  | none => match s.tasks.lookup id with
    | none => some (.error .noRows)
    | some row => if knownStatuses row.status then some (.ok row.task) else none

/-! ## Creating tasks -/

/-- The arguments of `create`. -/
structure NewTask where
  id : String
  initiator : String
  assignee : String
  threadID : String
  skill : String
  inputArtifacts : List Artifact
  metadata : List (String × String)
  key : String
deriving DecidableEq

/-- The row `create` inserts. -/
def NewTask.row (t : NewTask) (now : Int) : TaskRow where
  id := t.id
  initiator := t.initiator
  assignee := t.assignee
  threadId := t.threadID
  skill := t.skill
  status := .submitted
  inputArtifacts := t.inputArtifacts
  outputArtifacts := none
  metadata := t.metadata
  createdAt := now
  updatedAt := now
  error := none
  idempotencyKey := t.key
  maxAttempts := 3
  deadlineAt := none
  leaseToken := none
  leaseOwner := none
  leaseExpiresAt := none
  attempt := 0

/-- `SELECT id FROM tasks WHERE initiator=? AND idempotency_key=?`. -/
def lookupKey (initiator key : String) : Except TaskError String :=
  match env.fails .lookupKey with
  | some err => .error (.db err)
  | none => match s.tasks.rows.find? fun r => r.initiator = initiator ∧ r.idempotencyKey = key with
    | none => .error .noRows
    | some r => .ok r.id

/-- `INSERT INTO tasks`; neither the id nor a key of the initiator may be taken. -/
def insertTask (t : NewTask) : Except TaskError Store :=
  match env.fails .insertTask with
  | some err => .error (.db err)
  | none =>
    if t.key ≠ "" ∧ ∃ r ∈ s.tasks.rows, r.initiator = t.initiator ∧ r.idempotencyKey = t.key then .error .unique
    else match s.tasks.insert (t.row env.now) with
      | none => .error .unique
      | some tasks => .ok { s with tasks }

/-- A delivery is added under the next sequence number. -/
def addDelivery (taskId : String) (now : Int) : Store :=
  { s with
    deliveries := s.deliveries.insertOrIgnore ⟨s.lastSequence + 1, taskId, now⟩
    lastSequence := s.lastSequence + 1 }

/-- `INSERT INTO task_deliveries`. -/
def insertDelivery (taskId : String) : Except TaskError Store :=
  match env.fails .insertDelivery with
  | some err => .error (.db err)
  | none => .ok (s.addDelivery taskId env.now)

/-- `create`. -/
def create (t : NewTask) : Option (Except TaskError Task) × Store :=
  if t.skill = "" then (some (.error (.invalidTask "skill is required")), s)
  else if t.initiator ≠ "" ∧ t.initiator = t.assignee then
    (some (.error (.invalidTask "cannot delegate a task to its own initiator")), s)
  else
    let t := { t with id := if t.id = "" then env.uuid else t.id }
    match s.insertTask env t with
    | .error err =>
      -- The task that another call with the same key has created.
      if t.key = "" then (some (.error err), s)
      else match s.lookupKey env t.initiator t.key with
        | .error _ => (some (.error err), s)
        | .ok existing => (s.get env existing, s)
    | .ok s => match s.insertDelivery env t.id with
      | .error err => (some (.error err), s)
      | .ok s => (s.get env t.id, s)

/-- `createDispatched`. -/
def createDispatched (t : NewTask) : Option (Except TaskError Task) × Store :=
  match env.fails .dispatch with
  | some err => (some (.error (.db err)), s)
  | none => match s.create env t with
    | (some (.ok task), s) => match env.fails .taskExecutor with
      | some err => (some (.error (.db err)), s)
      | none => (some (.ok task), s)
    | result => result

/-- `CreateIdempotent`. -/
def createIdempotent (t : NewTask) : Option (Except TaskError Task) × Store :=
  if t.key = "" then s.createDispatched env { t with id := "" }
  else match s.lookupKey env t.initiator t.key with
    | .ok id => (s.get env id, s)
    | .error .noRows => s.createDispatched env { t with id := "" }
    | .error err => (some (.error err), s)

/-- `CreateFromRemote`. -/
def createFromRemote (t : NewTask) : Option (Except TaskError Task) × Store :=
  if t.id = "" then (some (.error (.invalidTask "task id is required")), s)
  else match s.get env t.id with
    | none => (none, s)
    | some (.ok existing) => (some (.ok existing), s)
    | some (.error _) => s.createDispatched env { t with key := "" }

/-! ## Direct updates -/

/-- What `updateStatus` writes. -/
def setStatus (now : Int) (status : TaskStatus) (errMsg : String) (outputs : List Artifact) (r : TaskRow) : TaskRow :=
  { r with status, error := some errMsg, outputArtifacts := some outputs, updatedAt := now }

/-- `UpdateStatus`: one transaction, and the task is read again.  There is no result when an assertion
fails. -/
def updateStatus (id : String) (status : TaskStatus) (errMsg : String) (outputArtifacts : List Artifact) :
    Option (Except TaskError Task) × Store :=
  match env.fails .dispatch with
  | some err => (some (.error (.db err)), s)
  | none => match env.fails .read with
  | some err => (some (.error (.db err)), s)
  | none => match s.tasks.lookup id with
    | none => (some (.error (.noTask id)), s)
    | some row => match canTransition row.status status with
      | none => (none, s)
      | some false => (some (.error (.invalidTransition row.status status)), s)
      | some true => match env.fails .write with
        | some err => (some (.error (.db err)), s)
        | none =>
          let s := s.update (fun r => r.id = id) (setStatus env.now status errMsg outputArtifacts) fun _ => rfl
          (s.get env id, s)

/-- `SetMaxAttempts`. -/
def setMaxAttempts (id : String) (max : Int) : Except TaskError Unit × Store :=
  if max = 0 then (.ok (), s)
  else if max < 1 then (.error .maxAttempts, s)
  else s.write env (s.update (fun r => r.id = id) (fun r => { r with maxAttempts := max }) fun _ => rfl) (.ok ())

/-- `SetTimeout`, in nanoseconds. -/
def setTimeout (id : String) (timeout : Int) : Except TaskError Unit × Store :=
  if timeout ≤ 0 then (.ok (), s)
  else s.write env (s.update (fun r => r.id = id)
    (fun r => { r with deadlineAt := some (unixMilli (env.nanos + timeout)) }) fun _ => rfl) (.ok ())

/-! ## Leases -/

/-- The length of a lease in milliseconds; the default is half a minute. -/
def leaseMillis (lease : Int) : Int := if lease ≤ 0 then 30000 else lease / 1000000

/-- A positive deadline has passed. -/
def pastDeadline (now : Int) (r : TaskRow) : Bool := r.deadlineAt.any fun d => 0 < d ∧ d ≤ now

/-- The attempts are used up. -/
def spent (r : TaskRow) : Bool := 0 < r.maxAttempts ∧ r.maxAttempts ≤ r.attempt

/-- The lease columns without a lease. -/
def noLease (r : TaskRow) : TaskRow :=
  { r with leaseToken := some "", leaseOwner := some "", leaseExpiresAt := some 0 }

/-- A task fails, its lease is left in the row. -/
def failKeeping (now : Int) (errMsg : String) (r : TaskRow) : TaskRow :=
  { r with status := .failed, error := some errMsg, updatedAt := now }

/-- The row of a task that is claimed. -/
def leased (now : Int) (token worker : String) (lease : Int) (r : TaskRow) : TaskRow :=
  { r with
    status := .working, leaseToken := some token, leaseOwner := some worker
    leaseExpiresAt := some (now + leaseMillis lease), attempt := r.attempt + 1, updatedAt := now }

/-- `Claim`, one transaction. -/
def claim (id worker : String) (lease : Int) : Except TaskError TaskLease × Store :=
  match env.fails .read with
  | some err => (.error (.db err), s)
  | none => match s.tasks.lookup id with
    | none => (.error .noRows, s)
    | some row =>
      let now := env.now
      if row.assignee ≠ worker then (.error .notAssignee, s)
      else if pastDeadline now row then match env.fails .write with
        | some err => (.error (.db err), s)
        | none => (.error .attemptsExhausted, s.update
          (fun r => r.id = id ∧ (r.status = .submitted ∨ r.status = .working))
          (failKeeping now "task deadline exceeded") fun _ => rfl)
      else if row.status = .working ∧ row.leaseOwner.getD "" = worker ∧ row.leaseExpiresAt.any (fun x => now < x) then
        match env.fails .write with
        | some err => (.error (.db err), s)
        | none => (.ok ⟨id, row.leaseToken.getD "", row.leaseExpiresAt.getD 0, UInt32.ofNat row.attempt⟩, s)
      else if row.status ≠ .submitted ∧ ¬(row.status = .working ∧ row.leaseExpiresAt.any fun x => x ≤ now) then
        (.error .leaseConflict, s)
      else if spent row then match env.fails .write with
        | some err => (.error (.db err), s)
        | none => (.error .attemptsExhausted, s.update (fun r => r.id = id)
          (fun r => noLease (failKeeping now "maximum task attempts exhausted" r)) fun _ => rfl)
      else match env.fails .random with
        | some err => (.error (.db err), s)
        | none => match env.fails .write with
          | some err => (.error (.db err), s)
          | none => (.ok ⟨id, env.token, now + leaseMillis lease, UInt32.ofNat (row.attempt + 1)⟩,
            s.update (fun r => r.id = id) (leased now env.token worker lease) fun _ => rfl)

/-- The condition under which `RenewLease` and `FinishLease` write. -/
def holdsLease (id worker leaseToken : String) (now : Int) (r : TaskRow) : Bool :=
  r.id = id ∧ r.status = .working ∧ r.leaseOwner = some worker ∧ r.leaseToken = some leaseToken ∧
    r.leaseExpiresAt.any fun x => now < x

/-- The row of a task whose lease is renewed. -/
def renewed (now : Int) (lease : Int) (r : TaskRow) : TaskRow :=
  { r with leaseExpiresAt := some (now + leaseMillis lease), updatedAt := now }

/-- `RenewLease`; the attempt is read by a second statement whose error is ignored. -/
def renewLease (id worker leaseToken : String) (lease : Int) : Except TaskError TaskLease × Store :=
  match env.fails .write with
  | some err => (.error (.db err), s)
  | none =>
    let now := env.now
    if s.tasks.select (holdsLease id worker leaseToken now) = [] then (.error .leaseExpired, s)
    else
      let s := s.update (holdsLease id worker leaseToken now) (renewed now lease) fun _ => rfl
      let attempt := match env.fails .read with
        | some _ => 0
        | none => ((s.tasks.lookup id).map TaskRow.attempt).getD 0
      (.ok ⟨id, leaseToken, now + leaseMillis lease, UInt32.ofNat attempt⟩, s)

/-- `FinishLease`. -/
def finishLease (id worker leaseToken : String) (status : TaskStatus) (errMsg : String) (outputs : List Artifact) :
    Option (Except TaskError Task) × Store :=
  if status ≠ .completed ∧ status ≠ .failed then (some (.error .notAnOutcome), s)
  else match env.fails .write with
    | some err => (some (.error (.db err)), s)
    | none =>
      let now := env.now
      if s.tasks.select (holdsLease id worker leaseToken now) = [] then (some (.error .leaseExpired), s)
      else
        let s := s.update (holdsLease id worker leaseToken now)
          (fun r => noLease (setStatus now status errMsg outputs r)) fun _ => rfl
        (s.get env id, s)

/-- The tasks whose lease has expired. -/
def expired (now : Int) : List TaskRow :=
  s.tasks.select fun r => r.status = .working ∧ r.leaseExpiresAt.any fun x => 0 < x ∧ x ≤ now

/-- One round of the loop of `requeueExpired`. -/
def requeue (now : Int) (s : Store) (row : TaskRow) : Store :=
  if pastDeadline now row ∨ spent row then
    s.update (fun r => r.id = row.id)
      (fun r => noLease (failKeeping now "task lease expired after retry budget" r)) fun _ => rfl
  else
    (s.update (fun r => r.id = row.id)
      (fun r => noLease { r with status := .submitted, updatedAt := now }) fun _ => rfl).addDelivery row.id now

/-- `requeueExpired`, one transaction. -/
def requeueExpired : Except TaskError Unit × Store :=
  match env.fails .read with
  | some err => (.error (.db err), s)
  | none => s.write env ((s.expired env.now).foldl (requeue env.now) s) (.ok ())

end Store

/-! ## Operations -/

/-- The operations that write.  A call that creates a task consists of several statements between which
others may be executed: the last two are those of them that write. -/
inductive Op
  | createIdempotent (t : Store.NewTask)
  | createFromRemote (t : Store.NewTask)
  | updateStatus (id : String) (status : TaskStatus) (errMsg : String) (outputArtifacts : List Artifact)
  | claim (id worker : String) (lease : Int)
  | setMaxAttempts (id : String) (max : Int)
  | setTimeout (id : String) (timeout : Int)
  | renewLease (id worker leaseToken : String) (lease : Int)
  | finishLease (id worker leaseToken : String) (status : TaskStatus) (errMsg : String) (outputs : List Artifact)
  | requeueExpired
  | insertTask (t : Store.NewTask)
  | insertDelivery (taskId : String)

/-- What an operation returns. -/
inductive Output
  | done (r : Except TaskError Unit)
  | task (r : Option (Except TaskError Task))
  | lease (r : Except TaskError TaskLease)

/-- An operation with what the environment decides during it. -/
structure Input where
  env : Env
  op : Op

/-- The end of a statement that may fail. -/
def Store.settle (s : Store) : Except TaskError Store → Output × Store
  | .error err => (.done (.error err), s)
  | .ok s => (.done (.ok ()), s)

/-- One operation. -/
def step (s : Store) (i : Input) : Output × Store :=
  match i.op with
  | .createIdempotent t => (s.createIdempotent i.env t).map .task fun s => s
  | .createFromRemote t => (s.createFromRemote i.env t).map .task fun s => s
  | .updateStatus id status errMsg outputs => (s.updateStatus i.env id status errMsg outputs).map .task fun s => s
  | .claim id worker lease => (s.claim i.env id worker lease).map .lease fun s => s
  | .setMaxAttempts id max => (s.setMaxAttempts i.env id max).map .done fun s => s
  | .setTimeout id timeout => (s.setTimeout i.env id timeout).map .done fun s => s
  | .renewLease id worker token lease => (s.renewLease i.env id worker token lease).map .lease fun s => s
  | .finishLease id worker token status errMsg outputs =>
    (s.finishLease i.env id worker token status errMsg outputs).map .task fun s => s
  | .requeueExpired => (s.requeueExpired i.env).map .done fun s => s
  | .insertTask t => s.settle (s.insertTask i.env t)
  | .insertDelivery taskId => s.settle (s.insertDelivery i.env taskId)

end MoltMesh.Tasks

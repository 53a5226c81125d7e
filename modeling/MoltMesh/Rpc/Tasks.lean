import MoltMesh.Outbox.Store
import MoltMesh.Rpc.Threads
import MoltMesh.Tasks.Rows

/-!
# Calls about tasks

`daemon/rpc/server_tasks.go`: the calls by which clients create tasks and workers finish them, and
what is done with the messages other daemons send about tasks.  Each of them consists of several
calls of the task store, the outbox and the threads, every one of which may fail.

What is only logged or broadcast is left out.  There is no result where an assertion fails.
-/

namespace MoltMesh.Tasks.Store

variable (s : Store) (env : Env)

/-- The end of the calls that set one status: the status is asserted. -/
def setting (id : String) (status : TaskStatus) (errMsg : String) (post : Task → Bool) :
    Option (Except TaskError Task) × Store :=
  match s.updateStatus env id status errMsg [] with
  | (some (.ok task), s) => if task.status = status ∧ post task then (some (.ok task), s) else (none, s)
  | result => result

/-- `StartWork`. -/
def startWork (id : String) : Option (Except TaskError Task) × Store := s.setting env id .working "" fun _ => true

/-- `Fail`. -/
def fail (id errMsg : String) : Option (Except TaskError Task) × Store :=
  s.setting env id .failed errMsg fun task => task.error = errMsg

/-- `Cancel`. -/
def cancel (id : String) : Option (Except TaskError Task) × Store := s.setting env id .cancelled "" fun _ => true

/-! ### What an update of the status does -/

section Updates

variable {s env} {id : String} {row : TaskRow}

/-- `UpdateStatus` gets as far as its write. -/
def Writes (env : Env) (row : TaskRow) (status : TaskStatus) : Prop :=
  env.fails .dispatch = none ∧ env.fails .read = none ∧ canTransition row.status status = some true ∧
    env.fails .write = none

/-- `UpdateStatus` either writes the status and reads the task again, or it returns no task and writes nothing. -/
theorem updateStatus_cases (hrow : s.tasks.lookup id = some row) (status : TaskStatus) (errMsg : String)
    (outputs : List Artifact) :
    (Writes env row status ∧ ∃ s', s'.tasks.lookup id = some (setStatus env.now status errMsg outputs row) ∧
      s.updateStatus env id status errMsg outputs = (s'.get env id, s')) ∨
    (¬Writes env row status ∧ (s.updateStatus env id status errMsg outputs).2 = s ∧
      ∀ task, (s.updateStatus env id status errMsg outputs).1 ≠ some (.ok task)) := by
  unfold updateStatus Writes
  rw [hrow]
  cases hdispatch : env.fails .dispatch with
  | some err => exact .inr ⟨fun h => (by cases h.1), rfl, by rintro task ⟨⟩⟩
  | none =>
  cases hread : env.fails .read with
  | some err => exact .inr ⟨fun h => (by cases h.2.1), rfl, by rintro task ⟨⟩⟩
  | none =>
  dsimp only
  rcases hvalid : canTransition row.status status with _ | _ | _
  · exact .inr ⟨fun h => (by cases h.2.2.1), rfl, by rintro task ⟨⟩⟩
  · exact .inr ⟨fun h => (by cases h.2.2.1), rfl, by rintro task ⟨⟩⟩
  · cases hwrite : env.fails .write with
    | some err => exact .inr ⟨fun h => (by cases h.2.2.2), rfl, by rintro task ⟨⟩⟩
    | none =>
      refine .inl ⟨⟨rfl, rfl, rfl, rfl⟩, _, ?_, rfl⟩
      exact update_own hrow (decide_eq_true (id_of_lookup hrow))

theorem updateStatus_none (hrow : s.tasks.lookup id = none) (status : TaskStatus) (errMsg : String)
    (outputs : List Artifact) :
    (s.updateStatus env id status errMsg outputs).2 = s ∧
      ∀ task, (s.updateStatus env id status errMsg outputs).1 ≠ some (.ok task) := by
  unfold updateStatus
  rw [hrow]
  split
  · exact ⟨rfl, by rintro task ⟨⟩⟩
  split <;> exact ⟨rfl, by rintro task ⟨⟩⟩

/-- The task that is read has the status that has been written. -/
theorem updateStatus_ok {status : TaskStatus} {errMsg : String} {outputs : List Artifact} {task : Task}
    (h : (s.updateStatus env id status errMsg outputs).1 = some (.ok task)) : task.status = status ∧ task.error = errMsg := by
  cases hrow : s.tasks.lookup id with
  | none => exact absurd h ((updateStatus_none hrow status errMsg outputs).2 task)
  | some row =>
    rcases @updateStatus_cases s env id row hrow status errMsg outputs with ⟨-, s', hrow', heq⟩ | ⟨-, -, hnone⟩
    · rw [heq] at h
      unfold Store.get at h
      rw [hrow'] at h
      split at h
      · cases h
      · dsimp only at h
        split at h
        · cases h
          exact ⟨rfl, rfl⟩
        · cases h
    · exact absurd h (hnone task)

/-- What is asserted of the task holds. -/
theorem setting_eq {status : TaskStatus} {errMsg : String} {post : Task → Bool}
    (hpost : ∀ task : Task, task.error = errMsg → post task = true) :
    s.setting env id status errMsg post = s.updateStatus env id status errMsg [] := by
  unfold setting
  split
  · rename_i task s' heq
    obtain ⟨hstatus, herror⟩ := updateStatus_ok (congrArg Prod.fst heq)
    rw [if_pos ⟨hstatus, hpost task herror⟩]
    exact heq.symm
  · rfl

theorem startWork_eq : s.startWork env id = s.updateStatus env id .working "" [] := setting_eq fun _ _ => rfl

theorem fail_eq (errMsg : String) : s.fail env id errMsg = s.updateStatus env id .failed errMsg [] :=
  setting_eq fun _ herror => decide_eq_true herror

theorem cancel_eq : s.cancel env id = s.updateStatus env id .cancelled "" [] := setting_eq fun _ _ => rfl

end Updates

end MoltMesh.Tasks.Store

namespace MoltMesh.Rpc

open MoltMesh.Lib MoltMesh.Tasks

/-! ## The server -/

/-- `pb.EventKind`; on the wire it may be any number. -/
inductive EventKind
  | unspecified
  | tokenChunk
  | toolCall
  | toolResult
  | statusUpdate
  | artifact
  | done
  | error
  | other (n : Int)
deriving DecidableEq

/-- `pb.TaskEvent`. -/
structure TaskEvent where
  taskId : String
  status : TaskStatus
  kind : EventKind
  data : List UInt8
  seq : Int
  emittedAt : Int
deriving DecidableEq

/-- `Server`, as far as these calls go. -/
structure TaskServer extends Server where
  tasks : Tasks.Store
  /-- The table `task_events`. -/
  events : Table TaskEvent fun e => (e.taskId, e.seq)
  /-- The table of the outbox, with the messages of these calls. -/
  queue : Outbox.Db
  /-- Whether there is a thread manager. -/
  hasThreads : Bool

/-- The errors of these calls. -/
inductive TaskRpcError
  | message (text : String)
  /-- An error of the task store, with what is put before it. -/
  | store (context : String) (err : TaskError)
deriving DecidableEq

/-- What the environment decides while a message is put into the outbox. -/
structure EnqueueEnv where
  /-- The error of `proto.Marshal`, of the payload. -/
  marshal : Option String
  /-- What `uuid.New` returns. -/
  uuid : String
  sentAt : Int
  now : Int
  later : Int
  /-- The error of `EnqueueForOwner`. -/
  fails : Option String

variable (S : TaskServer)

/-- `agentDID`. -/
def agentDID (env : Env) (authorization : List String) : Except String String × TaskServer :=
  match S.sessions.authenticate env.now (bearerToken authorization) with
  | (result, sessions) => (result, { S with sessions })

/-- `EnqueueForOwner`. -/
def enqueueForOwner (env : EnqueueEnv) (ownerDID : String) (msg : Message) : Except String Unit × TaskServer :=
  match Outbox.enqueue env.fails ownerDID msg env.now env.later S.queue with
  | (result, queue) => (result, { S with queue })

/-- `authorizeTask`. -/
def authorizeTask (env : Env) (authorization : List String) (task : Task) (mutate : Bool) :
    Except TaskRpcError Unit × TaskServer :=
  match scopedOwner S.toServer env authorization with
  | (.error err, R) => (.error (.message err), { S with toServer := R })
  | (.ok owner, R) =>
    let result := if owner ≠ "" ∧ owner ≠ task.initiator ∧ (mutate ∨ owner ≠ task.assignee) then
      .error (.message ("task " ++ task.id ++ " is not owned by authenticated agent")) else .ok ()
    (result, { S with toServer := R })

/-- `SaveEvent`; an event with the same number is kept. -/
def saveEvent (fails : Option String) (event : TaskEvent) : Except String Unit × TaskServer :=
  if event.taskId = "" then (.error "task event requires task_id", S)
  else match fails with
    | some err => (.error err, S)
    | none => (.ok (), { S with events := S.events.insertOrIgnore event })

/-- What a call of the task store that returns a task leaves, with its error. -/
def stored (context : String) : Option (Except TaskError Task) × Tasks.Store →
    Option (Except TaskRpcError Task) × TaskServer
  | (none, tasks) => (none, { S with tasks })
  | (some (.error err), tasks) => (some (.error (.store context err)), { S with tasks })
  | (some (.ok task), tasks) => (some (.ok task), { S with tasks })

/-! ## CreateTask -/

/-- `pb.CreateTaskRequest`. -/
structure CreateTaskRequest where
  toDid : String
  task : Option TaskRequest
  idempotencyKey : String
  timeoutMs : Int64
  maxAttempts : UInt32

/-- What the environment decides during `CreateTask`, call by call. -/
structure CreateTaskEnv where
  session : Env
  create : Tasks.Env
  maxAttempts : Tasks.Env
  timeout : Tasks.Env
  enqueue : EnqueueEnv
  fail : Tasks.Env

/-- `time.Duration(req.TimeoutMs) * time.Millisecond`, in nanoseconds; it may overflow. -/
def CreateTaskRequest.timeout (req : CreateTaskRequest) : Int := (req.timeoutMs * 1000000).toInt

/-- The arguments of `CreateIdempotent`. -/
def CreateTaskRequest.newTask (req : CreateTaskRequest) (t : TaskRequest) (initiator : String) : Store.NewTask where
  id := ""
  initiator := initiator
  assignee := req.toDid
  threadID := t.threadId
  skill := t.skill
  inputArtifacts := t.inputArtifacts
  metadata := t.metadata
  key := req.idempotencyKey

/-- The budget and the deadline of the task are set. -/
def setUp (env : CreateTaskEnv) (req : CreateTaskRequest) (id : String) : Except TaskRpcError Unit × TaskServer :=
  match S.tasks.setMaxAttempts env.maxAttempts id req.maxAttempts.toNat with
  | (.error err, tasks) => (.error (.store "create task: set max attempts: " err), { S with tasks })
  | (.ok (), tasks) => match tasks.setTimeout env.timeout id req.timeout with
    | (.error err, tasks) => (.error (.store "create task: set timeout: " err), { S with tasks })
    | (.ok (), tasks) => (.ok (), { S with tasks })

/-- The message to the assignee. -/
def requestMessage (env : EnqueueEnv) (initiator : String) (req : CreateTaskRequest) (t : TaskRequest) (task : Task) :
    Message where
  id := env.uuid
  fromDid := initiator
  toDid := req.toDid
  threadId := task.threadId
  taskId := task.id
  kind := .taskRequest
  payload := .taskRequest t
  sentAt := env.sentAt

/-- The assignee is notified; otherwise the task fails. -/
def notifyAssignee (env : CreateTaskEnv) (initiator : String) (req : CreateTaskRequest) (t : TaskRequest) (task : Task) :
    Option (Except TaskRpcError Task) × TaskServer :=
  match env.enqueue.marshal with
  | some err => (some (.error (.message ("create task: encode request: " ++ err))), S)
  | none =>
    match enqueueForOwner S env.enqueue initiator (requestMessage env.enqueue initiator req t task) with
    | (.ok (), S) => (some (.ok task), S)
    | (.error err, S) => match S.tasks.fail env.fail task.id ("failed to notify assignee: " ++ err) with
      | (none, tasks) => (none, { S with tasks })
      | (some _, tasks) =>
        (some (.error (.message ("create task: notify assignee: " ++ err))), { S with tasks })

/-- `CreateTask`. -/
def createTask (env : CreateTaskEnv) (authorization : List String) (req : CreateTaskRequest) :
    Option (Except TaskRpcError Task) × TaskServer :=
  match req.task with
  | none => (some (.error (.message "create task: task is required")), S)
  | some t => match scopedOwner S.toServer env.session authorization with
    | (.error err, R) => (some (.error (.message err)), { S with toServer := R })
    | (.ok owner, R) =>
      let initiator := authorOf R owner
      match stored { S with toServer := R } "create task: "
          (S.tasks.createIdempotent env.create (req.newTask t initiator)) with
      | (some (.ok task), S) => match setUp S env req task.id with
        | (.error err, S) => (some (.error err), S)
        | (.ok (), S) => notifyAssignee S env initiator req t task
      | result => result

/-! ## Leases -/

/-- What the environment decides during a call about a lease. -/
structure LeaseEnv where
  session : Env
  store : Tasks.Env
  enqueue : EnqueueEnv

/-- `ClaimTask`. -/
def claimTask (env : LeaseEnv) (authorization : List String) (taskId : String) (leaseSeconds : UInt32) :
    Except TaskRpcError TaskLease × TaskServer :=
  match agentDID S env.session authorization with
  | (.error err, S) => (.error (.message err), S)
  | (.ok worker, S) => match S.tasks.claim env.store taskId worker (leaseSeconds.toNat * 1000000000) with
    | (.error err, tasks) => (.error (.store "" err), { S with tasks })
    | (.ok lease, tasks) => (.ok lease, { S with tasks })

/-- `RenewTaskLease`. -/
def renewTaskLease (env : LeaseEnv) (authorization : List String) (taskId leaseToken : String) (leaseSeconds : UInt32) :
    Except TaskRpcError TaskLease × TaskServer :=
  match agentDID S env.session authorization with
  | (.error err, S) => (.error (.message err), S)
  | (.ok worker, S) => match S.tasks.renewLease env.store taskId worker leaseToken (leaseSeconds.toNat * 1000000000) with
    | (.error err, tasks) => (.error (.store "" err), { S with tasks })
    | (.ok lease, tasks) => (.ok lease, { S with tasks })

/-- The message to the initiator of a task. -/
def resultMessage (env : EnqueueEnv) (fromDID : String) (task : Task) (errMsg : String) : Message where
  id := env.uuid
  fromDid := fromDID
  toDid := task.initiator
  threadId := task.threadId
  taskId := task.id
  kind := .taskResult
  payload := .taskResult ⟨task.id, task.status, task.outputArtifacts, errMsg, []⟩
  sentAt := env.sentAt

/-- The outbox when the initiator has been notified, unless it is on this daemon. -/
def notified (did : String) (env : EnqueueEnv) (fromDID : String) (task : Task) (errMsg : String) (queue : Outbox.Db) :
    Outbox.Db :=
  if task.initiator = "" ∨ task.initiator = did then queue
  else match env.marshal with
    | some _ => queue
    | none => (Outbox.enqueue env.fails fromDID (resultMessage env fromDID task errMsg) env.now env.later queue).2

/-- `notifyRemoteInitiator`; its errors are logged. -/
def notifyRemoteInitiator (env : EnqueueEnv) (fromDID : String) (task : Task) (errMsg : String) : TaskServer :=
  { S with queue := notified S.did env fromDID task errMsg S.queue }

/-- A lease ends with an outcome, and the initiator is notified. -/
def finishTask (env : LeaseEnv) (authorization : List String) (taskId leaseToken : String) (status : TaskStatus)
    (errMsg : String) (outputs : List Artifact) : Option (Except TaskRpcError Task) × TaskServer :=
  match agentDID S env.session authorization with
  | (.error err, S) => (some (.error (.message err)), S)
  | (.ok worker, S) =>
    match stored S "" (S.tasks.finishLease env.store taskId worker leaseToken status errMsg outputs) with
    | (some (.ok task), S) => (some (.ok task), notifyRemoteInitiator S env.enqueue worker task errMsg)
    | result => result

/-- `CompleteTask`. -/
def completeTask (env : LeaseEnv) (authorization : List String) (taskId leaseToken : String)
    (outputArtifacts : List Artifact) : Option (Except TaskRpcError Task) × TaskServer :=
  finishTask S env authorization taskId leaseToken .completed "" outputArtifacts

/-- `FailTask`. -/
def failTask (env : LeaseEnv) (authorization : List String) (taskId leaseToken error : String) :
    Option (Except TaskRpcError Task) × TaskServer :=
  finishTask S env authorization taskId leaseToken .failed error []

/-! ## Direct updates -/

/-- What the environment decides during a direct update. -/
structure UpdateEnv where
  session : Env
  get : Tasks.Env
  update : Tasks.Env

/-- The task is read, and the caller is checked, before a change. -/
def mutating (env : UpdateEnv) (authorization : List String) (taskId : String)
    (change : Tasks.Store → Option (Except TaskError Task) × Tasks.Store) :
    Option (Except TaskRpcError Task) × TaskServer :=
  match S.tasks.get env.get taskId with
  | none => (none, S)
  | some (.error err) => (some (.error (.store "" err)), S)
  | some (.ok current) => match authorizeTask S env.session authorization current true with
    | (.error err, S) => (some (.error err), S)
    | (.ok (), S) => stored S "" (change S.tasks)

/-- `UpdateTask`. -/
def updateTask (env : UpdateEnv) (authorization : List String) (taskId : String) (status : TaskStatus) (error : String)
    (outputArtifacts : List Artifact) : Option (Except TaskRpcError Task) × TaskServer :=
  mutating S env authorization taskId fun s => s.updateStatus env.update taskId status error outputArtifacts

/-- `CancelTask`. -/
def cancelTask (env : UpdateEnv) (authorization : List String) (taskId : String) :
    Option (Except TaskRpcError Task) × TaskServer :=
  mutating S env authorization taskId fun s => s.cancel env.update taskId

/-- `SendTaskResult`; the id of the message is returned. -/
def sendTaskResult (env : Env) (enqueue : EnqueueEnv) (authorization : List String) (toDid threadId : String)
    (result : Option TaskResult) : Except TaskRpcError String × TaskServer :=
  match result with
  | none => (.error (.message "task result requires to_did and task_id"), S)
  | some r =>
    if r.taskId = "" ∨ toDid = "" then (.error (.message "task result requires to_did and task_id"), S)
    else if r.status ≠ .completed ∧ r.status ≠ .failed then
      (.error (.message "task result status must be completed or failed"), S)
    else match enqueue.marshal with
    | some err => (.error (.message err), S)
    | none => match scopedOwner S.toServer env authorization with
      | (.error err, R) => (.error (.message err), { S with toServer := R })
      | (.ok owner, R) =>
        let fromDID := authorOf R owner
        match enqueueForOwner { S with toServer := R } enqueue fromDID
            ⟨enqueue.uuid, fromDID, toDid, threadId, r.taskId, .taskResult, .taskResult r, enqueue.sentAt⟩ with
        | (.error err, S) => (.error (.message err), S)
        | (.ok (), S) => (.ok enqueue.uuid, S)

/-! ## Messages of other daemons -/

/-- `handleTaskRequest`. -/
def handleTaskRequest (env : Tasks.Env) (msg : Message) : Option (Except TaskRpcError Task) × TaskServer :=
  match msg.payload with
  | .taskRequest t => stored S "" (S.tasks.createFromRemote env
    ⟨msg.taskId, msg.fromDid, msg.toDid, msg.threadId, t.skill, t.inputArtifacts, t.metadata, ""⟩)
  | _ => (some (.error (.message "decode task request")), S)

/-- What the environment decides during `handleTaskResult`, call by call. -/
structure ResultEnv where
  get : Tasks.Env
  start : Tasks.Env
  update : Tasks.Env
  /-- `time.Now().UnixNano()`. -/
  seq : Int
  emittedAt : Int
  /-- The error of `SaveEvent`. -/
  saveEvent : Option String
  /-- What `proto.Marshal` returns of the event. -/
  marshal : Except String (List UInt8)
  submittedAt : Int
  thread : Env

/-- The event of a result. -/
def resultEvent (env : ResultEnv) (id : String) (status : TaskStatus) (result : TaskResult) : TaskEvent where
  taskId := id
  status := status
  kind := if result.status = .failed then .error else .done
  data := result.data
  seq := env.seq
  emittedAt := env.emittedAt

/-- The entry of a result in the thread of its task. -/
def resultEntry (env : ResultEnv) (fromDid : String) (data : List UInt8) : Pb.ThreadEntry :=
  { authorDid := fromDid, payload := data, kind := "task_result", authorSig := "", submittedAt := env.submittedAt }

/-- The event of a result goes to the thread of the task. -/
def appendResult (env : ResultEnv) (msg : Message) (threadId : String) : Except TaskRpcError Unit × TaskServer :=
  if threadId ≠ "" ∧ S.hasThreads then
    match env.marshal with
    | .error err => (.error (.message err), S)
    | .ok data => match managerAppendEntry S.toServer env.thread threadId (resultEntry env msg.fromDid data) with
      | (.error err, R) => (.error (.message err), { S with toServer := R })
      | (.ok (), R) => (.ok (), { S with toServer := R })
  else (.ok (), S)

/-- What follows when the status has been written. -/
def recordResult (env : ResultEnv) (msg : Message) (result : TaskResult) (task updated : Task) :
    Except TaskRpcError Unit × TaskServer :=
  match saveEvent S env.saveEvent (resultEvent env task.id updated.status result) with
  | (.error err, S) => (.error (.message err), S)
  | (.ok (), S) => appendResult S env msg task.threadId

/-- The task of a result is brought to `WORKING`, unless it has been started. -/
def startTask (env : ResultEnv) (task : Task) : Option (Except TaskError Unit) × TaskServer :=
  if task.status = .submitted then match S.tasks.startWork env.start task.id with
    | (none, tasks) => (none, { S with tasks })
    | (some (.error err), tasks) => (some (.error err), { S with tasks })
    | (some (.ok _), tasks) => (some (.ok ()), { S with tasks })
  else (some (.ok ()), S)

/-- The status of the result is written, and recorded. -/
def writeResult (env : ResultEnv) (msg : Message) (result : TaskResult) (task : Task) :
    Option (Except TaskRpcError Unit) × TaskServer :=
  match stored S "" (S.tasks.updateStatus env.update task.id result.status result.error result.outputArtifacts) with
  | (none, S) => (none, S)
  | (some (.error err), S) => (some (.error err), S)
  | (some (.ok updated), S) => (recordResult S env msg result task updated).map some fun S => S

/-- What is done with a result that is for a task of this daemon. -/
def applyResult (env : ResultEnv) (msg : Message) (result : TaskResult) (task : Task) :
    Option (Except TaskRpcError Unit) × TaskServer :=
  match startTask S env task with
  | (none, S) => (none, S)
  | (some (.error err), S) => (some (.error (.store "" err)), S)
  | (some (.ok ()), S) => writeResult S env msg result task

/-- The sender and the task of a result are those of the task. -/
def Matches (msg : Message) (task : Task) : Bool :=
  task.initiator = msg.toDid ∧ task.assignee = msg.fromDid ∧ msg.taskId = task.id ∧ msg.threadId = task.threadId

/-- `handleTaskResult`. -/
def handleTaskResult (env : ResultEnv) (msg : Message) : Option (Except TaskRpcError Unit) × TaskServer :=
  match msg.payload with
  | .taskResult result => match S.tasks.get env.get result.taskId with
    | none => (none, S)
    | some (.error err) => (some (.error (.store "" err)), S)
    | some (.ok task) =>
      if ¬Matches msg task then (some (.error (.message "task result sender or correlation mismatch")), S)
      else if task.status = result.status ∧ terminal task.status then (some (.ok ()), S)
      else applyResult S env msg result task
  | _ => (some (.error (.message "decode task result")), S)

end MoltMesh.Rpc

import MoltMesh.Rpc.Outcomes
import MoltMesh.Rpc.Requests

/-!
# The result of a task finds its request

`CreateTask` sends a request to the assignee, whose daemon sends a result when a lease of the task ends.  The
initiator takes a result only if it names its own task: whatever happens in between, it does (`reply_matches`).
-/

namespace MoltMesh.Rpc

open MoltMesh.Lib MoltMesh.Tasks Tasks.Store

/-- A task as it was requested, whose lease is that of its assignee, if it is anyone's. -/
structure Entrusted (msg : Message) (row : TaskRow) : Prop where
  initiator : row.initiator = msg.fromDid
  assignee : row.assignee = msg.toDid
  threadId : row.threadId = msg.threadId
  owner : row.leaseOwner.getD "" = "" ∨ row.leaseOwner = some msg.toDid

variable {msg : Message} {row row' : TaskRow} {env : Tasks.Env} {op : Op} {out : Output} {id : String}

theorem Entrusted.rowStep (h : Entrusted msg row) (hstep : RowStep id env row op out row') : Entrusted msg row' := by
  obtain ⟨hinitiator, hassignee, hthread, howner⟩ := h
  cases hstep with
  | claimed hworker => exact ⟨hinitiator, hassignee, hthread, .inr (by rw [← hassignee, hworker]; rfl)⟩
  | exhausted | finished | requeued | abandoned => exact ⟨hinitiator, hassignee, hthread, .inl rfl⟩
  | _ => exact ⟨hinitiator, hassignee, hthread, howner⟩

/-- Whatever is done to the tasks of a daemon. -/
theorem Entrusted.runs {s : Tasks.Store} (hrow : s.tasks.lookup id = some row) (h : Entrusted msg row) (is : List Input) :
    ∃ row', (runs step s is).tasks.lookup id = some row' ∧ Entrusted msg row' := by
  induction is generalizing s row with
  | nil => exact ⟨row, hrow, h⟩
  | cons i is ih =>
    obtain ⟨row', hrow', hstep⟩ := step_row hrow i
    exact ih hrow' (h.rowStep hstep)

/-- A request for a task that is not there is recorded when it is accepted. -/
theorem handleTaskRequest_row {S S' : TaskServer} {request : TaskRequest} {task : Task}
    (hpayload : msg.payload = .taskRequest request) (hnew : S.tasks.tasks.lookup msg.taskId = none)
    (h : handleTaskRequest S env msg = (some (.ok task), S')) :
    ∃ row, S'.tasks.tasks.lookup msg.taskId = some row ∧ Entrusted msg row := by
  rw [handleTaskRequest, hpayload] at h
  dsimp only at h
  unfold createFromRemote at h
  split at h
  · cases h
  rename_i hid
  split at h
  · cases h
  · rename_i existing hget
    obtain ⟨row, hrow, -⟩ := get_eq_ok hget
    rw [hnew] at hrow
    cases hrow
  · generalize hout : S.tasks.createDispatched env _ = out at h
    rcases out with ⟨_ | err | task', s'⟩ <;> cases h
    exact ⟨_, createDispatched_eq_ok hid rfl hout, rfl, rfl, rfl, .inl rfl⟩

/-- **The result of a task finds its request.**  The daemon of the assignee accepts a request, and after any run
of its task store a worker ends a lease of the task: the message for it passes the check of the initiator. -/
theorem reply_matches {S S' : TaskServer} {create finish : EnqueueEnv} {req : CreateTaskRequest} {request : TaskRequest}
    {task accepted done : Task} {worker token errMsg : String} {status : TaskStatus} {outputs : List Artifact} {now : Tasks.Env}
    (hassignee : task.assignee = req.toDid) (hnew : S.tasks.tasks.lookup task.id = none)
    (hrequest : handleTaskRequest S env (requestMessage create task.initiator req request task) = (some (.ok accepted), S'))
    (is : List Input) (hworker : worker ≠ "")
    (hdone : ((runs step S'.tasks is).finishLease now task.id worker token status errMsg outputs).1 = some (.ok done)) :
    Matches (resultMessage finish worker done errMsg) task = true := by
  obtain ⟨row₀, hrow₀, hentrusted⟩ := handleTaskRequest_row rfl hnew hrequest
  obtain ⟨row, hrow, hinitiator, -, hthread, howner⟩ := hentrusted.runs hrow₀ is
  rcases finishLease_cases hrow worker token status errMsg outputs with ⟨⟨-, -, hholds⟩, s', hrow', heq⟩ | ⟨-, -, hnone⟩
  · have hfrom : task.assignee = worker := by
      rw [(holdsLease_eq_true.mp hholds).2.2.1] at howner
      exact hassignee.trans (Option.some.inj (howner.resolve_left hworker)).symm
    obtain ⟨row', hrow'', rfl⟩ := get_eq_ok ((congrArg Prod.fst heq).symm.trans hdone)
    obtain rfl := Option.some.inj (hrow'.symm.trans hrow'')
    exact decide_eq_true ⟨hinitiator.symm, hfrom, id_of_lookup hrow'', hthread⟩
  · exact absurd hdone (hnone done)

/-- The worker of the errand claims and completes it. -/
theorem reply_matches_errand :
    let task := (Errand.order.row 1).task
    let enqueue := (Delegated.smooth 1).enqueue
    let msg := requestMessage enqueue "did:client" ⟨"did:worker", none, "", 0, 0⟩ ⟨"fetch", "", [], []⟩ task
    let S := (handleTaskRequest { Told.client with tasks := .empty } (Told.moment 1) msg).2
    let out := ((runs step S.tasks [⟨Errand.moment 2 "k", .claim "errand" "did:worker" 1000000000⟩]).finishLease (Told.moment 3)
      "errand" "did:worker" "k" .completed "" []).1
    ∃ done, out = some (.ok done) ∧ Matches (resultMessage enqueue "did:worker" done "") task = true := by
  intro task enqueue msg S out
  have hrequest : handleTaskRequest { Told.client with tasks := .empty } (Told.moment 1) msg = (some (.ok task), S) := rfl
  obtain ⟨done, hdone⟩ : ∃ done, out = some (.ok done) := ⟨_, rfl⟩
  exact ⟨done, hdone, reply_matches rfl rfl hrequest _ (by decide) hdone⟩

end MoltMesh.Rpc

import MoltMesh.Rpc.Results

/-!
# Requests for tasks

`handleTaskRequest` of `daemon/rpc/server_tasks.go`.  A task is looked up by the id that its
sender has chosen, and one that is found is taken for the task of the request
(`recorded_iff`).
-/

namespace MoltMesh.Rpc

open MoltMesh.Lib MoltMesh.Tasks MoltMesh.Tasks.Store Pb

section Requests

variable {s s' : Tasks.Store} {env : Tasks.Env} {t : NewTask} {task : Task}

/-- A call that creates a task without a key has inserted its row. -/
theorem createDispatched_eq_ok (hid : t.id ≠ "") (hkey : t.key = "")
    (h : s.createDispatched env t = (some (.ok task), s')) : s'.tasks.lookup t.id = some (t.row env.now) := by
  have hcreate : s.create env t = (some (.ok task), s') := by
    unfold createDispatched at h
    split at h
    · cases h
    split at h
    · rename_i hcreate
      split at h
      · cases h
      · rw [hcreate]
        exact h
    · exact h
  unfold create at hcreate
  rw [if_neg hid] at hcreate
  split at hcreate
  · cases hcreate
  split at hcreate
  · cases hcreate
  dsimp only at hcreate
  split at hcreate
  · rw [if_pos hkey] at hcreate
    cases hcreate
  rename_i s₁ hinsert
  have hrow := (lookup_insertTask_self hinsert).2
  split at hcreate
  · cases hcreate
  rename_i s₂ hdelivery
  obtain ⟨-, rfl⟩ := Prod.mk.inj hcreate
  rw [insertDelivery_tasks hdelivery]
  exact hrow

/-- The row of a task is that of the request. -/
def Requested (msg : Message) (t : TaskRequest) (row : TaskRow) : Prop :=
  row.initiator = msg.fromDid ∧ row.assignee = msg.toDid ∧ row.skill = t.skill

/-- A request that is accepted has been recorded as it was sent. -/
def Recorded (S : TaskServer) (env : Tasks.Env) (msg : Message) : Prop :=
  ∀ t task S', msg.payload = .taskRequest t → handleTaskRequest S env msg = (some (.ok task), S') →
    ∃ row, S'.tasks.tasks.lookup msg.taskId = some row ∧ Requested msg t row

/-- **When requests are recorded as they were sent**: a task that has the id already is that of the request. -/
theorem recorded_iff (S : TaskServer) (env : Tasks.Env) (msg : Message) : Recorded S env msg ↔
    ∀ t row, msg.payload = .taskRequest t → msg.taskId ≠ "" → env.fails .get = none →
      S.tasks.tasks.lookup msg.taskId = some row → knownStatuses row.status = true → Requested msg t row := by
  constructor
  · intro h t row hpayload hid hget hrow hknown
    have hread : S.tasks.get env msg.taskId = some (.ok row.task) := by
      rw [Store.get, hget, hrow]
      exact if_pos hknown
    obtain ⟨row', hrow', hrequested⟩ := h t row.task S hpayload <| by
      rw [handleTaskRequest, hpayload]
      dsimp only
      rw [createFromRemote, if_neg hid, hread]
      rfl
    rwa [Option.some.inj (hrow.symm.trans hrow')]
  · intro h t task S' hpayload haccept
    rw [handleTaskRequest, hpayload] at haccept
    dsimp only at haccept
    unfold createFromRemote at haccept
    split at haccept
    · cases haccept
    rename_i hid
    split at haccept
    · cases haccept
    · rename_i existing hget
      cases haccept
      unfold Store.get at hget
      split at hget
      · cases hget
      rename_i hfails
      split at hget
      · cases hget
      rename_i row hrow
      split at hget
      · rename_i hknown
        exact ⟨row, hrow, h t row hpayload hid hfails hrow hknown⟩
      · cases hget
    · generalize hout : S.tasks.createDispatched env _ = out at haccept
      rcases out with ⟨_ | err | task', s'⟩ <;> cases haccept
      exact ⟨_, createDispatched_eq_ok hid rfl hout, rfl, rfl, rfl⟩

end Requests

/-- The request of another client, with an id that is taken, is accepted and not recorded. -/
theorem request_unrecorded : ¬Recorded Told.client (Told.moment 2)
    { Told.message .completed with fromDid := "did:other", toDid := "did:worker", taskId := "errand", payload := .taskRequest ⟨"pay", "", [], []⟩ } := by
  intro h
  obtain ⟨row, hrow, hinitiator, -⟩ := h _ _ _ rfl rfl
  cases hrow
  exact absurd hinitiator (by decide)

end MoltMesh.Rpc

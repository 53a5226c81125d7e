import MoltMesh.Rpc.Authority
import MoltMesh.Rpc.Results
import MoltMesh.Tasks.Keys

/-!
# Who updates a task

`UpdateTask` and `CancelTask` are for the initiator of a task: however often an agent calls them, the tasks of
other initiators stay as they are, also those it works on (`updates_by_initiator`).
-/

namespace MoltMesh.Rpc

open MoltMesh.Lib MoltMesh.Tasks

/-- A call is made in a session of the agent. -/
def InSession (S : TaskServer) (env : Env) (authorization : List String) (did : String) : Prop :=
  (S.sessions.authenticate env.now (bearerToken authorization)).1 = .ok did

/-- An agent asks for an update of some task. -/
inductive UpdateStep (did : String) (S : TaskServer) : TaskServer → Prop
  | update {env authorization taskId status error outputs} (hdid : InSession S env.session authorization did) :
    UpdateStep did S (updateTask S env authorization taskId status error outputs).2
  | cancel {env authorization taskId} (hdid : InSession S env.session authorization did) :
    UpdateStep did S (cancelTask S env authorization taskId).2

variable {S S' : TaskServer} {did id taskId : String} {row : TaskRow} {authorization : List String} {env : UpdateEnv}

/-- A call in a session is made for its agent. -/
theorem InSession.scopedOwner (h : InSession S env.session authorization did) :
    did ≠ "" ∧ ∃ R, scopedOwner S.toServer env.session authorization = (.ok did, R) := by
  refine ⟨SessionManager.ne_of_authenticate (Prod.ext h rfl), ?_⟩
  unfold Rpc.scopedOwner
  rw [if_neg]
  · exact ⟨_, by rw [← h]⟩
  · intro hempty
    rw [InSession, hempty] at h
    cases h

/-- What is not asked for by the initiator is not done. -/
theorem mutating_lookup (hdid : InSession S env.session authorization did) (hrow : S.tasks.tasks.lookup id = some row)
    (hinitiator : row.initiator ≠ did) {change : Tasks.Store → Option (Except TaskError Task) × Tasks.Store}
    (hchange : taskId ≠ id → (change S.tasks).2.tasks.lookup id = some row) :
    (mutating S env authorization taskId change).2.tasks.tasks.lookup id = some row := by
  obtain ⟨hne, R, howner⟩ := hdid.scopedOwner
  unfold mutating authorizeTask
  split
  · exact hrow
  · exact hrow
  rename_i hget
  rw [howner]
  dsimp only
  by_cases hid : taskId = id
  · obtain ⟨row', hrow', rfl⟩ := get_eq_ok hget
    obtain rfl := Option.some.inj (hrow.symm.trans (hid ▸ hrow'))
    rw [if_pos ⟨hne, hinitiator.symm, .inl rfl⟩]
    exact hrow
  · split
    · rename_i heq
      exact (Prod.mk.inj heq).2 ▸ hrow
    · rename_i heq
      obtain ⟨-, rfl⟩ := Prod.mk.inj heq
      have hkept := hchange hid
      unfold stored
      split
      all_goals
        rename_i hresult
        rwa [hresult] at hkept

/-- **A task is updated for its initiator**, and for no other agent. -/
theorem updates_by_initiator (hrun : Relation.ReflTransGen (UpdateStep did) S S')
    (hrow : S.tasks.tasks.lookup id = some row) (hinitiator : row.initiator ≠ did) :
    S'.tasks.tasks.lookup id = some row := by
  induction hrun with
  | refl => exact hrow
  | tail _ hstep ih =>
    cases hstep with
    | update hdid =>
      refine mutating_lookup hdid ih hinitiator fun hne => ?_
      exact .trans (lookup_step_of_ne (i := ⟨_, .updateStatus ..⟩) rfl hne) ih
    | cancel hdid =>
      refine mutating_lookup hdid ih hinitiator fun hne => ?_
      rw [Store.cancel_eq]
      exact .trans (lookup_step_of_ne (i := ⟨_, .updateStatus ..⟩) rfl hne) ih

open Guest in
/-- A client cancels the task of another, in vain. -/
theorem updates_by_initiator_guest :
    let S := { Told.client with toServer := host }
    ∃ row, S.tasks.tasks.lookup "errand" = some row ∧
      (cancelTask S ⟨calm, Told.moment 2, Told.moment 3⟩ ["Bearer token"] "errand").2.tasks.tasks.lookup "errand" = some row := by
  refine ⟨_, rfl, @updates_by_initiator _ _ "guest" _ _ (.single (.cancel ?_)) rfl (by decide)⟩
  unfold InSession
  decide +kernel

end MoltMesh.Rpc

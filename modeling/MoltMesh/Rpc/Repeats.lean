import MoltMesh.Rpc.Tasks
import MoltMesh.Tasks.Keys

/-!
# Creating a task again

`CreateTask` hands the idempotency key to the task store, which finds the task that is there
(`createIdempotent_found`).  Then it goes on as if the task were new: the budget and the deadline of
the request are written to it, another message is enqueued, and if that fails so does the
task.  `Neutral` says when nothing of this changes the row.
-/

namespace MoltMesh.Rpc

open MoltMesh.Lib MoltMesh.Tasks MoltMesh.Tasks.Store

/-! ## What the calls of the store do to the row -/

section Rows

variable {s : Tasks.Store} {env : Tasks.Env} {id initiator key : String} {row : TaskRow}

theorem indexed_runs (h : s.Indexed) (is : List Input) : (runs step s is).Indexed :=
  turns_induction (motive := fun _ s => Store.Indexed s) h (fun _ _ i hs => hs.step i) is

theorem owned_runs (h : s.Owned id initiator key) (is : List Input) : (runs step s is).Owned id initiator key :=
  turns_induction (motive := fun _ s => Store.Owned s id initiator key) h (fun _ _ i hs => hs.step i) is

/-- The task that has the key is found. -/
theorem lookupKey_of_owned (hindex : s.Indexed) (h : s.Owned id initiator key) (hkey : key ≠ "")
    (hfails : env.fails .lookupKey = none) : s.lookupKey env initiator key = .ok id := by
  cases hlookup : s.lookupKey env initiator key with
  | ok id' => rw [(owned_of_lookupKey hlookup).unique h hindex hkey]
  | error err =>
    obtain ⟨row, hrow, hinitiator, hrowkey⟩ := h
    unfold lookupKey at hlookup
    rw [hfails] at hlookup
    dsimp only at hlookup
    split at hlookup
    · rename_i hnone
      have hnot := List.find?_eq_none.mp hnone row (Table.lookup_eq_some.mp hrow).1
      exact absurd (decide_eq_true ⟨hinitiator, hrowkey⟩) hnot
    · cases hlookup

/-- **`CreateIdempotent` for a key that is taken** reads the task and writes nothing. -/
theorem createIdempotent_found (hindex : s.Indexed) {t : NewTask} (h : s.Owned id t.initiator t.key) (hkey : t.key ≠ "") :
    s.createIdempotent env t = match env.fails .lookupKey with
      | some err => (some (.error (.db err)), s)
      | none => (s.get env id, s) := by
  rw [createIdempotent, if_neg hkey]
  cases hfails : env.fails .lookupKey with
  | none => rw [lookupKey_of_owned hindex h hkey hfails]
  | some err =>
    have hlookup : s.lookupKey env t.initiator t.key = .error (.db err) := by
      unfold lookupKey
      rw [hfails]
    rw [hlookup]

/-- A task that `CreateIdempotent` returns is one of its initiator and its key. -/
theorem owned_createIdempotent {t : NewTask} {task : Task} (h : (s.createIdempotent env t).1 = some (.ok task)) :
    (s.createIdempotent env t).2.Owned task.id t.initiator t.key := by
  have hrun := (@CreateCall.faithful_start s t).run (List.replicate 4 env)
  rw [CreateCall.run_createIdempotent, h] at hrun
  exact hrun.owned task.id rfl

theorem setMaxAttempts_row (hrow : s.tasks.lookup id = some row) (max : Nat) :
    ((s.setMaxAttempts env id max).1 = .ok () ↔ max = 0 ∨ env.fails .write = none) ∧
      ∃ row', (s.setMaxAttempts env id max).2.tasks.lookup id = some row' ∧
        row' = { row with maxAttempts := row'.maxAttempts } ∧
        (row' = row ↔ max = 0 ∨ env.fails .write ≠ none ∨ row.maxAttempts = max) := by
  unfold setMaxAttempts
  by_cases hmax : max = 0
  · rw [if_pos (by rw [hmax]; rfl)]
    exact ⟨iff_of_true rfl (.inl hmax), row, hrow, rfl, iff_of_true rfl (.inl hmax)⟩
  rw [if_neg (by omega), if_neg (by omega), write]
  cases hwrite : env.fails .write with
  | some err =>
    refine ⟨iff_of_false (by rintro ⟨⟩) ?_, row, hrow, rfl, iff_of_true rfl (.inr (.inl (by rintro ⟨⟩)))⟩
    rintro (h | h)
    · exact hmax h
    · cases h
  | none =>
    refine ⟨iff_of_true rfl (.inr rfl), _, update_own hrow (decide_eq_true (id_of_lookup hrow)), rfl, ?_⟩
    constructor
    · intro heq
      exact .inr (.inr (congrArg TaskRow.maxAttempts heq).symm)
    · rintro (h | h | h)
      · exact absurd h hmax
      · exact absurd rfl h
      · rw [← h]

theorem setTimeout_row (hrow : s.tasks.lookup id = some row) (timeout : Int) :
    ((s.setTimeout env id timeout).1 = .ok () ↔ timeout ≤ 0 ∨ env.fails .write = none) ∧
      ∃ row', (s.setTimeout env id timeout).2.tasks.lookup id = some row' ∧
        row' = { row with deadlineAt := row'.deadlineAt } ∧
        (row' = row ↔ timeout ≤ 0 ∨ env.fails .write ≠ none ∨
          row.deadlineAt = some (unixMilli (env.nanos + timeout))) := by
  unfold setTimeout
  by_cases htimeout : timeout ≤ 0
  · rw [if_pos htimeout]
    exact ⟨iff_of_true rfl (.inl htimeout), row, hrow, rfl, iff_of_true rfl (.inl htimeout)⟩
  rw [if_neg htimeout, write]
  cases hwrite : env.fails .write with
  | some err =>
    refine ⟨iff_of_false (by rintro ⟨⟩) ?_, row, hrow, rfl, iff_of_true rfl (.inr (.inl (by rintro ⟨⟩)))⟩
    rintro (h | h)
    · exact htimeout h
    · cases h
  | none =>
    refine ⟨iff_of_true rfl (.inr rfl), _, update_own hrow (decide_eq_true (id_of_lookup hrow)), rfl, ?_⟩
    constructor
    · intro heq
      exact .inr (.inr (congrArg TaskRow.deadlineAt heq).symm)
    · rintro (h | h | h)
      · exact absurd h htimeout
      · exact absurd rfl h
      · rw [← h]

end Rows

/-! ## What the calls are made of -/

section Calls

variable {S : TaskServer} {env : CreateTaskEnv} {authorization : List String} {req : CreateTaskRequest}

/-- What a call does to the task store is done by operations. -/
def Operates (s s' : Tasks.Store) : Prop := ∃ is : List Input, s' = runs step s is

theorem Operates.refl (s : Tasks.Store) : Operates s s := ⟨[], rfl⟩

theorem Operates.trans {s s' s'' : Tasks.Store} (h : Operates s s') (h' : Operates s' s'') : Operates s s'' := by
  obtain ⟨is, rfl⟩ := h
  obtain ⟨is', rfl⟩ := h'
  exact ⟨is ++ is', by rw [runs, runs, runs, List.foldl_append]⟩

theorem operates_step (s : Tasks.Store) (i : Input) : Operates s (step s i).2 := ⟨[i], rfl⟩

theorem operates_setUp (id : String) : Operates S.tasks (setUp S env req id).2.tasks := by
  have hmax := operates_step S.tasks ⟨env.maxAttempts, .setMaxAttempts id req.maxAttempts.toNat⟩
  simp only [step, Prod.map_snd] at hmax
  -- under a name, since the kernel would compute the product of the request's timeout
  obtain ⟨timeout, htimeout⟩ : ∃ timeout, req.timeout = timeout := ⟨_, rfl⟩
  unfold setUp
  rw [htimeout]
  generalize S.tasks.setMaxAttempts env.maxAttempts id req.maxAttempts.toNat = result at hmax ⊢
  rcases result with ⟨_ | _, tasks⟩
  · exact hmax
  · have hbound := operates_step tasks ⟨env.timeout, .setTimeout id timeout⟩
    simp only [step, Prod.map_snd] at hbound
    dsimp only
    generalize tasks.setTimeout env.timeout id timeout = result at hbound ⊢
    rcases result with ⟨_ | _, tasks'⟩ <;> exact hmax.trans hbound

theorem operates_notifyAssignee (initiator : String) (t : TaskRequest) (task : Task) :
    Operates S.tasks (notifyAssignee S env initiator req t task).2.tasks := by
  unfold notifyAssignee enqueueForOwner Outbox.enqueue
  split
  · exact .refl _
  · cases env.enqueue.fails with
    | none => exact .refl _
    | some err =>
      dsimp only
      rw [fail_eq]
      have hfail := operates_step S.tasks
        ⟨env.fail, .updateStatus task.id .failed ("failed to notify assignee: " ++ err) []⟩
      simp only [step, Prod.map_snd] at hfail
      generalize S.tasks.updateStatus env.fail task.id .failed ("failed to notify assignee: " ++ err) [] = result at hfail ⊢
      rcases result with ⟨_ | _, tasks⟩ <;> exact hfail

/-- The initiator of the tasks a caller creates. -/
def initiatorOf (S : TaskServer) (env : Env) (authorization : List String) : Option String :=
  match scopedOwner S.toServer env authorization with
  | (.error _, _) => none
  | (.ok owner, R) => some (authorOf R owner)

/-- What comes after `CreateIdempotent` has returned a task. -/
def proceed (S : TaskServer) (env : CreateTaskEnv) (initiator : String) (req : CreateTaskRequest) (t : TaskRequest)
    (task : Task) : Option (Except TaskRpcError Task) × TaskServer :=
  match setUp S env req task.id with
  | (.error err, S) => (some (.error err), S)
  | (.ok (), S) => notifyAssignee S env initiator req t task

theorem operates_proceed (initiator : String) (t : TaskRequest) (task : Task) :
    Operates S.tasks (proceed S env initiator req t task).2.tasks := by
  have hsetUp := @operates_setUp S env req task.id
  unfold proceed
  generalize setUp S env req task.id = result at hsetUp ⊢
  rcases result with ⟨_ | _, S'⟩
  · exact hsetUp
  · exact hsetUp.trans (operates_notifyAssignee ..)

/-- `CreateTask` when its caller is known. -/
theorem createTask_eq {t : TaskRequest} {initiator : String} (ht : req.task = some t)
    (hinitiator : initiatorOf S env.session authorization = some initiator) :
    ∃ R, createTask S env authorization req = match S.tasks.createIdempotent env.create (req.newTask t initiator) with
      | (none, tasks) => (none, { S with toServer := R, tasks })
      | (some (.error err), tasks) => (some (.error (.store "create task: " err)), { S with toServer := R, tasks })
      | (some (.ok task), tasks) => proceed { S with toServer := R, tasks } env initiator req t task := by
  unfold initiatorOf at hinitiator
  unfold createTask
  rw [ht]
  dsimp only
  generalize scopedOwner S.toServer env.session authorization = result at hinitiator ⊢
  rcases result with ⟨err | owner, R⟩
  · cases hinitiator
  · cases hinitiator
    refine ⟨R, ?_⟩
    dsimp only
    generalize S.tasks.createIdempotent env.create (req.newTask t (authorOf R owner)) = result
    rcases result with ⟨_ | _ | task, tasks⟩ <;> rfl

/-- A caller whose `CreateTask` succeeds is known. -/
theorem initiatorOf_of_ok {task : Task} (h : (createTask S env authorization req).1 = some (.ok task)) :
    ∃ t initiator, req.task = some t ∧ initiatorOf S env.session authorization = some initiator := by
  unfold createTask at h
  unfold initiatorOf
  split at h
  · cases h
  · rename_i t ht
    generalize scopedOwner S.toServer env.session authorization = result at h ⊢
    rcases result with ⟨err | owner, R⟩
    · cases h
    · exact ⟨t, _, ht, rfl⟩

theorem proceed_ok {initiator : String} {t : TaskRequest} {task task' : Task}
    (h : (proceed S env initiator req t task).1 = some (.ok task')) : task' = task := by
  unfold proceed at h
  split at h
  · cases h
  · unfold notifyAssignee at h
    split at h
    · cases h
    split at h
    · cases h
      rfl
    · split at h <;> cases h

/-- The task of a `CreateTask` that has succeeded is one of its initiator and its key. -/
theorem owned_createTask {task : Task} {initiator : String} (h : (createTask S env authorization req).1 = some (.ok task))
    (hinitiator : initiatorOf S env.session authorization = some initiator) :
    (createTask S env authorization req).2.tasks.Owned task.id initiator req.idempotencyKey := by
  obtain ⟨t, _, ht, -⟩ := initiatorOf_of_ok h
  obtain ⟨R, heq⟩ := createTask_eq ht hinitiator
  have howned := @owned_createIdempotent S.tasks env.create (req.newTask t initiator)
  rw [heq] at h ⊢
  generalize S.tasks.createIdempotent env.create (req.newTask t initiator) = result at h howned ⊢
  rcases result with ⟨_ | _ | task', tasks⟩
  · cases h
  · cases h
  · obtain rfl := proceed_ok h
    obtain ⟨is, his⟩ := @operates_proceed { S with toServer := R, tasks } env req initiator t task
    dsimp only
    rw [his]
    exact owned_runs (howned rfl) is

theorem operates_createTask : Operates S.tasks (createTask S env authorization req).2.tasks := by
  cases ht : req.task with
  | none =>
    unfold createTask
    rw [ht]
    exact .refl _
  | some t =>
    cases hinitiator : initiatorOf S env.session authorization with
    | none =>
      unfold initiatorOf at hinitiator
      unfold createTask
      rw [ht]
      dsimp only
      generalize scopedOwner S.toServer env.session authorization = result at hinitiator ⊢
      rcases result with ⟨err | owner, R⟩
      · exact .refl _
      · cases hinitiator
    | some initiator =>
      obtain ⟨R, heq⟩ := createTask_eq ht hinitiator
      have hcreate := operates_step S.tasks ⟨env.create, .createIdempotent (req.newTask t initiator)⟩
      simp only [step, Prod.map_snd] at hcreate
      rw [heq]
      generalize S.tasks.createIdempotent env.create (req.newTask t initiator) = result at hcreate ⊢
      rcases result with ⟨_ | _ | task, tasks⟩
      · exact hcreate
      · exact hcreate
      · exact hcreate.trans (operates_proceed ..)

end Calls

/-! ## Repeats -/

section Repeats

variable (env : CreateTaskEnv) (req : CreateTaskRequest) (row : TaskRow)

/-- The task is read. -/
def Found : Prop :=
  req.task.isSome ∧ env.create.fails .lookupKey = none ∧ env.create.fails .get = none ∧ knownStatuses row.status = true

/-- `SetMaxAttempts` returns no error. -/
def BudgetSet : Prop := req.maxAttempts.toNat = 0 ∨ env.maxAttempts.fails .write = none

/-- `SetMaxAttempts` writes nothing, or what is there. -/
def KeepsBudget : Prop :=
  req.maxAttempts.toNat = 0 ∨ env.maxAttempts.fails .write ≠ none ∨ row.maxAttempts = req.maxAttempts.toNat

/-- `SetTimeout` returns no error. -/
def DeadlineSet : Prop := req.timeout ≤ 0 ∨ env.timeout.fails .write = none

/-- `SetTimeout` writes nothing, or what is there. -/
def KeepsDeadline : Prop :=
  req.timeout ≤ 0 ∨ env.timeout.fails .write ≠ none ∨
    row.deadlineAt = some (unixMilli (env.timeout.nanos + req.timeout))

/-- The assignee is not notified, so that the task is to fail. -/
def Unannounced : Prop := env.enqueue.marshal = none ∧ env.enqueue.fails ≠ none

/-- A repeat does not change the row: the task is not read, or the request has its budget and its deadline or sets
none, and if the assignee is not notified the task cannot fail. -/
def Neutral : Prop :=
  Found env req row → KeepsBudget env req row ∧ (BudgetSet env req →
    KeepsDeadline env req row ∧ (DeadlineSet env req → Unannounced env → ¬Writes env.fail row .failed))

variable {env req row} {S : TaskServer} {id : String}

theorem setUp_row (hrow : S.tasks.tasks.lookup id = some row) :
    ((setUp S env req id).1 = .ok () ↔ BudgetSet env req ∧ DeadlineSet env req) ∧
      ∃ row', (setUp S env req id).2.tasks.tasks.lookup id = some row' ∧
        row' = { row with maxAttempts := row'.maxAttempts, deadlineAt := row'.deadlineAt } ∧
        (row' = row ↔ KeepsBudget env req row ∧ (BudgetSet env req → KeepsDeadline env req row)) := by
  obtain ⟨hset, row₁, hrow₁, hshape₁, hkeeps₁⟩ :=
    @setMaxAttempts_row S.tasks env.maxAttempts id row hrow req.maxAttempts.toNat
  obtain ⟨timeout, htimeout⟩ : ∃ timeout, req.timeout = timeout := ⟨_, rfl⟩
  unfold setUp
  rw [htimeout]
  generalize S.tasks.setMaxAttempts env.maxAttempts id req.maxAttempts.toNat = result at hset hrow₁ ⊢
  rcases result with ⟨err | _, tasks⟩
  · have hnot : ¬BudgetSet env req := fun h => by cases hset.mpr h
    refine ⟨iff_of_false (by rintro ⟨⟩) fun h => hnot h.1, row₁, hrow₁, hshape₁ ▸ rfl, ?_⟩
    exact hkeeps₁.trans ⟨fun h => ⟨h, fun hbudget => absurd hbudget hnot⟩, And.left⟩
  · have hbudget : BudgetSet env req := hset.mp rfl
    obtain ⟨hset₂, row₂, hrow₂, hshape₂, hkeeps₂⟩ := @setTimeout_row tasks env.timeout id row₁ hrow₁ timeout
    dsimp only
    generalize tasks.setTimeout env.timeout id timeout = result at hset₂ hrow₂ ⊢
    rw [← htimeout] at hset₂ hkeeps₂
    have hdeadline : row₁.deadlineAt = row.deadlineAt := by rw [hshape₁]
    have hbefore : row₂.maxAttempts = row₁.maxAttempts := by rw [hshape₂]
    rw [hdeadline] at hkeeps₂
    have hmain : row₂ = row ↔ KeepsBudget env req row ∧ (BudgetSet env req → KeepsDeadline env req row) := by
      constructor
      · intro heq
        have hback : row₁ = row := by
          rw [hshape₁, ← hbefore, heq]
        exact ⟨hkeeps₁.mp hback, fun _ => hkeeps₂.mp (heq.trans hback.symm)⟩
      · rintro ⟨hb, hd⟩
        exact (hkeeps₂.mpr (hd hbudget)).trans (hkeeps₁.mpr hb)
    have hshape : row₂ = { row with maxAttempts := row₂.maxAttempts, deadlineAt := row₂.deadlineAt } := by
      rw [hshape₂, hshape₁]
    rcases result with ⟨err | _, tasks'⟩
    · refine ⟨iff_of_false (by rintro ⟨⟩) fun h => ?_, row₂, hrow₂, hshape, hmain⟩
      cases hset₂.mpr h.2
    · exact ⟨iff_of_true rfl ⟨hbudget, hset₂.mp rfl⟩, row₂, hrow₂, hshape, hmain⟩

/-- The assignee is notified, or the task fails. -/
theorem notifyAssignee_row {task : Task} (hrow : S.tasks.tasks.lookup task.id = some row) (initiator : String) (t : TaskRequest) :
    ∃ row', (notifyAssignee S env initiator req t task).2.tasks.tasks.lookup task.id = some row' ∧
      row'.maxAttempts = row.maxAttempts ∧ row'.deadlineAt = row.deadlineAt ∧
      (row' = row ↔ (Unannounced env → ¬Writes env.fail row .failed)) := by
  unfold notifyAssignee enqueueForOwner Outbox.enqueue
  cases hmarshal : env.enqueue.marshal with
  | some err => exact ⟨row, hrow, rfl, rfl, iff_of_true rfl fun h => by rw [Unannounced, hmarshal] at h; cases h.1⟩
  | none =>
  cases hfails : env.enqueue.fails with
  | none => exact ⟨row, hrow, rfl, rfl, iff_of_true rfl fun h => absurd hfails h.2⟩
  | some err =>
    have hunannounced : Unannounced env := ⟨hmarshal, by rw [hfails]; rintro ⟨⟩⟩
    dsimp only
    rw [fail_eq]
    rcases @updateStatus_cases S.tasks env.fail task.id row hrow .failed ("failed to notify assignee: " ++ err) [] with
      ⟨hwrites, s', hrow', heq⟩ | ⟨hnot, hsame, -⟩
    · rw [heq]
      refine ⟨setStatus env.fail.now .failed ("failed to notify assignee: " ++ err) [] row, ?_, rfl, rfl,
        iff_of_false (fun hsame => ?_) fun h => h hunannounced hwrites⟩
      · generalize s'.get env.fail task.id = result
        rcases result with _ | _ <;> exact hrow'
      · -- The status was not `FAILED` before.
        have hstatus : TaskStatus.failed = row.status := congrArg TaskRow.status hsame
        have hvalid := hwrites.2.2.1
        rw [← hstatus] at hvalid
        cases hvalid
    · refine ⟨row, ?_, rfl, rfl, iff_of_true rfl fun _ => hnot⟩
      generalize S.tasks.updateStatus env.fail task.id .failed ("failed to notify assignee: " ++ err) [] = result at hsame ⊢
      obtain ⟨_ | _, s'⟩ := result <;> (cases hsame; exact hrow)

theorem proceed_row {task : Task} (hrow : S.tasks.tasks.lookup task.id = some row) (initiator : String) (t : TaskRequest) :
    ∃ row', (proceed S env initiator req t task).2.tasks.tasks.lookup task.id = some row' ∧
      (row' = row ↔ KeepsBudget env req row ∧ (BudgetSet env req →
        KeepsDeadline env req row ∧ (DeadlineSet env req → Unannounced env → ¬Writes env.fail row .failed))) := by
  obtain ⟨hset, row₁, hrow₁, hshape, hkeeps⟩ := @setUp_row env req row S task.id hrow
  unfold proceed
  generalize setUp S env req task.id = result at hset hrow₁ ⊢
  rcases result with ⟨err | _, S'⟩
  · have hnot : ¬(BudgetSet env req ∧ DeadlineSet env req) := fun h => by cases hset.mpr h
    refine ⟨row₁, hrow₁, hkeeps.trans (and_congr_right fun _ => forall_congr' fun hbudget => ?_)⟩
    exact ⟨fun hdeadline => ⟨hdeadline, fun hset' => absurd ⟨hbudget, hset'⟩ hnot⟩, And.left⟩
  · obtain ⟨hbudget, hdeadline⟩ := hset.mp rfl
    obtain ⟨row₂, hrow₂, hmax, hdead, hfail⟩ := @notifyAssignee_row env req row₁ S' task hrow₁ initiator t
    have hwrites : Writes env.fail row₁ .failed ↔ Writes env.fail row .failed := by
      rw [hshape]
      rfl
    rw [hwrites] at hfail
    refine ⟨row₂, hrow₂, ?_⟩
    constructor
    · intro heq
      have hback : row₁ = row := by
        rw [hshape, ← hmax, ← hdead, heq]
      obtain ⟨hb, hd⟩ := hkeeps.mp hback
      exact ⟨hb, fun _ => ⟨hd hbudget, fun _ => hfail.mp (heq.trans hback.symm)⟩⟩
    · rintro ⟨hb, hd⟩
      exact (hfail.mpr ((hd hbudget).2 hdeadline)).trans (hkeeps.mpr ⟨hb, fun _ => (hd hbudget).1⟩)

/-- **Repeating `CreateTask`**: at any time after a request with an idempotency key has succeeded, a request of
the same initiator with the same key returns the same task if it succeeds, and leaves its row as it is
exactly if it is neutral. -/
theorem createTask_repeat {S₀ : TaskServer} {env₀ : CreateTaskEnv} {authorization₀ authorization : List String}
    {req₀ : CreateTaskRequest} {task₀ : Task} (hindex : S₀.tasks.Indexed) (hkey : req₀.idempotencyKey ≠ "")
    (hfirst : (createTask S₀ env₀ authorization₀ req₀).1 = some (.ok task₀)) (is : List Input)
    (hlater : S.tasks = runs step (createTask S₀ env₀ authorization₀ req₀).2.tasks is)
    (hsamekey : req.idempotencyKey = req₀.idempotencyKey)
    (hinitiator : initiatorOf S env.session authorization = initiatorOf S₀ env₀.session authorization₀) :
    let again := createTask S env authorization req
    ∃ row, S.tasks.tasks.lookup task₀.id = some row ∧
      (((∀ task, again.1 = some (.ok task) → task.id = task₀.id) ∧ again.2.tasks.tasks.lookup task₀.id = some row) ↔
        Neutral env req row) := by
  intro again
  obtain ⟨-, initiator, -, hinitiator₀⟩ := initiatorOf_of_ok hfirst
  rw [hinitiator₀] at hinitiator
  obtain ⟨is₀, his₀⟩ := @operates_createTask S₀ env₀ authorization₀ req₀
  have hindexed : S.tasks.Indexed := by
    rw [hlater, his₀]
    exact indexed_runs (indexed_runs hindex is₀) is
  have howned : S.tasks.Owned task₀.id initiator req.idempotencyKey := by
    rw [hlater, hsamekey]
    exact owned_runs (owned_createTask hfirst hinitiator₀) is
  obtain ⟨row, hrow, hpair⟩ := howned
  refine ⟨row, hrow, ?_⟩
  cases ht : req.task with
  | none =>
    have hagain : again = (some (.error (.message "create task: task is required")), S) := by
      simp only [again, createTask, ht]
    rw [hagain]
    refine iff_of_true ⟨by rintro task ⟨⟩, hrow⟩ fun hfound => ?_
    rw [Found, ht] at hfound
    cases hfound.1
  | some t =>
    obtain ⟨R, heq⟩ := createTask_eq ht hinitiator
    rw [createIdempotent_found hindexed ⟨row, hrow, hpair⟩ (by rw [CreateTaskRequest.newTask, hsamekey]; exact hkey)] at heq
    simp only [again, heq]
    cases hlookup : env.create.fails .lookupKey with
    | some err =>
      refine iff_of_true ⟨by rintro task ⟨⟩, hrow⟩ fun hfound => ?_
      cases hlookup.symm.trans hfound.2.1
    | none =>
    cases hget : env.create.fails .get with
    | some err =>
      simp only [Store.get, hget]
      refine iff_of_true ⟨by rintro task ⟨⟩, hrow⟩ fun hfound => ?_
      cases hget.symm.trans hfound.2.2.1
    | none =>
    by_cases hknown : knownStatuses row.status = true
    · simp only [Store.get, hget, hrow, if_pos hknown]
      have hid : row.task.id = task₀.id := id_of_lookup hrow
      have hfound : Found env req row := ⟨by rw [ht]; rfl, hlookup, hget, hknown⟩
      obtain ⟨row', hrow', hkeeps⟩ := @proceed_row env req row { S with toServer := R } row.task (by rw [hid]; exact hrow)
        initiator t
      rw [hid] at hrow'
      rw [hrow']
      constructor
      · rintro ⟨-, hsame⟩ -
        exact hkeeps.mp (Option.some.inj hsame)
      · intro hneutral
        refine ⟨fun task htask => ?_, congrArg some (hkeeps.mpr (hneutral hfound))⟩
        rw [proceed_ok htask, hid]
    · simp only [Store.get, hget, hrow, if_neg hknown]
      refine iff_of_true ⟨by rintro task ⟨⟩, trivial⟩ fun hfound => ?_
      exact absurd hfound.2.2.2 hknown

end Repeats

/-! A request that is made twice. -/
namespace Twice

/-- A daemon without sessions, tasks and messages. -/
def daemon : TaskServer :=
  { did := "did:client", sessions := ⟨.empty⟩, db := .empty, outbox := [], tasks := .empty, events := .empty,
    queue := .empty, hasThreads := true }

/-- The store at a moment at which nothing fails. -/
def moment (millis : Int) (uuid : String) : Tasks.Env := ⟨millis * 1000000, uuid, "", fun _ => none⟩

/-- A call during which nothing fails. -/
def smooth (millis : Int) (uuid : String) : CreateTaskEnv :=
  ⟨⟨millis, fun _ => none⟩, moment millis uuid, moment millis "", moment millis "",
    ⟨none, "m" ++ uuid, millis, millis, millis, none⟩, moment millis ""⟩

def request : CreateTaskRequest := ⟨"did:worker", some ⟨"fetch", "", [], []⟩, "once", 0, 0⟩

/-- The daemon after the first request. -/
def first : TaskServer := (createTask daemon (smooth 1 "u1") [] request).2

/-- The outbox refuses the message of the repeat. -/
def refused : CreateTaskEnv := { smooth 2 "u2" with enqueue := ⟨none, "mu2", 2, 2, 2, some "disk full"⟩ }

end Twice

open Twice in
theorem createTask_repeat_twice : ∃ task row, (createTask daemon (smooth 1 "u1") [] request).1 = some (.ok task) ∧
    first.tasks.tasks.lookup task.id = some row ∧
    (createTask first (smooth 2 "u2") [] request).2.tasks.tasks.lookup task.id = some row := by
  obtain ⟨row, hrow, hneutral⟩ := @createTask_repeat (smooth 2 "u2") request first daemon (smooth 1 "u1") [] [] request _
    indexed_empty (by decide) rfl [] rfl rfl rfl
  refine ⟨_, row, rfl, hrow, (hneutral.mpr fun _ => ⟨.inl rfl, fun _ => ⟨.inl (by decide), fun _ h => ?_⟩⟩).2⟩
  exact absurd rfl h.2

open Twice in
/-- The repeat asks for five attempts, and its message is refused: the task has five attempts, and it has failed. -/
theorem createTask_again_fails : ∃ task row row',
    (createTask daemon (smooth 1 "u1") [] request).1 = some (.ok task) ∧
    first.tasks.tasks.lookup task.id = some row ∧ row.status = .submitted ∧ row.maxAttempts = 3 ∧
    (createTask first refused [] { request with maxAttempts := 5 }).2.tasks.tasks.lookup task.id = some row' ∧
    row'.status = .failed ∧ row'.maxAttempts = 5 :=
  ⟨_, _, _, rfl, rfl, rfl, rfl, rfl, rfl, rfl⟩

end MoltMesh.Rpc

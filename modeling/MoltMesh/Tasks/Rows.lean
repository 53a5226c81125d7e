import MoltMesh.Tasks.Store

/-!
# What happens to the row of a task

Five operations write the status of a task.  `RowStep` lists what an operation can do to one row,
with what it returns, and `step_row` says that nothing else happens.  That a task with a
terminal status is frozen (`terminal_frozen`) is then a matter of going through the list.
-/

namespace MoltMesh.Tasks

open MoltMesh.Lib MoltMesh.Tasks.Store

variable {p : TaskRow → Bool} {f : TaskRow → TaskRow} {env : Env} {t : NewTask} {s' : Store}
  {now : Int} {op : Op} {id' : String} {out : Output}

/-- An operation that is not a successful claim, renewal or end of a lease of the task. -/
def Quiet (id : String) : Op → Output → Prop
  | .claim id' _ _, .lease (.ok _) => id' ≠ id
  | .renewLease id' _ _ _, .lease (.ok _) => id' ≠ id
  | .finishLease id' _ _ _ _ _, .task (some (.ok _)) => id' ≠ id
  | _, _ => True

/-- What an operation that returns an output can do to the row of task `id`. -/
inductive RowStep (id : String) (env : Env) (row : TaskRow) : Op → Output → TaskRow → Prop
  | same {op : Op} {out : Output} (hquiet : Quiet id op out) : RowStep id env row op out row
  | updated {status : TaskStatus} {errMsg : String} {outputs : List Artifact} {out : Output}
    (hvalid : canTransition row.status status = some true) :
    RowStep id env row (.updateStatus id status errMsg outputs) out (setStatus env.now status errMsg outputs row)
  /-- A claim comes after the deadline. -/
  | overdue {worker : String} {lease : Int} {err : TaskError}
    (hopen : row.status = .submitted ∨ row.status = .working) :
    RowStep id env row (.claim id worker lease) (.lease (.error err))
      (failKeeping env.now "task deadline exceeded" row)
  /-- A claim comes when the attempts are used up. -/
  | exhausted {worker : String} {lease : Int} {err : TaskError}
    (hopen : row.status = .submitted ∨ row.status = .working) :
    RowStep id env row (.claim id worker lease) (.lease (.error err))
      (noLease (failKeeping env.now "maximum task attempts exhausted" row))
  /-- The worker has a lease already, which is returned again. -/
  | reclaimed {worker : String} {lease : Int} {attempt : UInt32} (hassignee : row.assignee = worker)
    (hworking : row.status = .working) (howner : row.leaseOwner.getD "" = worker)
    (hlive : row.leaseExpiresAt.any (fun x => env.now < x) = true) :
    RowStep id env row (.claim id worker lease)
      (.lease (.ok ⟨id, row.leaseToken.getD "", row.leaseExpiresAt.getD 0, attempt⟩)) row
  | claimed {worker : String} {lease : Int} {attempt : UInt32} (hassignee : row.assignee = worker)
    (hfree : row.status = .submitted ∨ row.status = .working ∧ row.leaseExpiresAt.any (fun x => x ≤ env.now) = true) :
    RowStep id env row (.claim id worker lease)
      (.lease (.ok ⟨id, env.token, env.now + leaseMillis lease, attempt⟩)) (leased env.now env.token worker lease row)
  | renewed {worker token : String} {lease : Int} {attempt : UInt32}
    (hholds : holdsLease id worker token env.now row = true) :
    RowStep id env row (.renewLease id worker token lease)
      (.lease (.ok ⟨id, token, env.now + leaseMillis lease, attempt⟩)) (Store.renewed env.now lease row)
  | finished {worker token : String} {status : TaskStatus} {errMsg : String} {outputs : List Artifact} {out : Output}
    (hholds : holdsLease id worker token env.now row = true) (hstatus : status = .completed ∨ status = .failed) :
    RowStep id env row (.finishLease id worker token status errMsg outputs) out
      (noLease (setStatus env.now status errMsg outputs row))
  /-- The lease has expired, and the task is offered again. -/
  | requeued {out : Output} (hworking : row.status = .working) :
    RowStep id env row .requeueExpired out (noLease { row with status := .submitted, updatedAt := env.now })
  /-- The lease has expired, and the task is given up. -/
  | abandoned {out : Output} (hworking : row.status = .working) :
    RowStep id env row .requeueExpired out
      (noLease (failKeeping env.now "task lease expired after retry budget" row))
  | maxAttempts {max : Int} {out : Output} :
    RowStep id env row (.setMaxAttempts id max) out { row with maxAttempts := max }
  | timeout {timeout : Int} {out : Output} :
    RowStep id env row (.setTimeout id timeout) out
      { row with deadlineAt := some (unixMilli (env.nanos + timeout)) }

section Rows

variable {s : Store} {id : String} {row : TaskRow}

@[simp] theorem lookup_update {hf : ∀ r, (f r).id = r.id} :
    (s.update p f hf).tasks.lookup id = (s.tasks.lookup id).map fun r => if p r then f r else r :=
  Table.lookup_updateWhere _ p f hf id

@[simp] theorem addDelivery_tasks (taskId : String) (now : Int) : (s.addDelivery taskId now).tasks = s.tasks := rfl

theorem id_of_lookup (h : s.tasks.lookup id = some row) : row.id = id := (Table.lookup_eq_some.mp h).2

/-- A condition on the row of another task is not met. -/
theorem update_other {hf : ∀ r, (f r).id = r.id}
    (h : s.tasks.lookup id = some row) (hp : p row = false) : (s.update p f hf).tasks.lookup id = some row := by
  rw [lookup_update, h, Option.map_some, hp]
  rfl

theorem update_own {hf : ∀ r, (f r).id = r.id}
    (h : s.tasks.lookup id = some row) (hp : p row = true) : (s.update p f hf).tasks.lookup id = some (f row) := by
  rw [lookup_update, h, Option.map_some, if_pos hp]

/-! ## Creating -/

/-- What a successful `INSERT INTO tasks` says: the key was free, and so was the id. -/
theorem insertTask_ok (h : s.insertTask env t = .ok s') :
    (t.key ≠ "" → ∀ r ∈ s.tasks.rows, r.initiator = t.initiator → r.idempotencyKey ≠ t.key) ∧
      ∃ tasks, s.tasks.insert (t.row env.now) = some tasks ∧ s' = { s with tasks } := by
  unfold insertTask at h
  split at h
  · cases h
  split at h
  · cases h
  rename_i hfree
  split at h
  · cases h
  rename_i tasks hinsert
  cases h
  exact ⟨fun hkey r hr hinitiator heq => hfree ⟨hkey, r, hr, hinitiator, heq⟩, tasks, hinsert, rfl⟩

theorem lookup_insertTask (h : s.insertTask env t = .ok s') (k : String) :
    s'.tasks.lookup k = (s.tasks.lookup k).or (if t.id = k then some (t.row env.now) else none) := by
  obtain ⟨-, tasks, hinsert, rfl⟩ := insertTask_ok h
  exact Table.lookup_of_insert hinsert k

/-- The row that has been inserted is the new one. -/
theorem lookup_insertTask_self (h : s.insertTask env t = .ok s') :
    s.tasks.lookup t.id = none ∧ s'.tasks.lookup t.id = some (t.row env.now) := by
  obtain ⟨-, tasks, hinsert, rfl⟩ := insertTask_ok h
  have hnone : s.tasks.lookup t.id = none := by
    refine Table.lookup_eq_none.mpr fun r hr hid => ?_
    have hfree := mt Table.insert_eq_none.mpr (Option.isSome_iff_ne_none.mp (Option.isSome_of_eq_some hinsert))
    exact hfree (List.mem_map.mpr ⟨r, hr, hid⟩)
  refine ⟨hnone, ?_⟩
  rw [lookup_insertTask h, hnone, if_pos rfl, Option.none_or]

/-- What a call that creates tasks does to the table: a row may be inserted. -/
def Inserts (s s' : Store) : Prop :=
  s'.tasks = s.tasks ∨ ∃ env t s₁, s.insertTask env t = .ok s₁ ∧ s'.tasks = s₁.tasks

/-- What a statement or a call that creates tasks does to the table: there may be one more row, that of a
new task. -/
def Creates (s s' : Store) : Prop :=
  s'.tasks = s.tasks ∨ ∃ (t : NewTask) (now : Int), ∀ k, s'.tasks.lookup k =
    (s.tasks.lookup k).or (if t.id = k then some (t.row now) else none)

theorem creates_insertTask (h : s.insertTask env t = .ok s') : Creates s s' :=
  .inr ⟨t, env.now, lookup_insertTask h⟩

theorem Inserts.creates (h : Inserts s s') : Creates s s' := by
  rcases h with h | ⟨env, t, s₁, hinsert, h⟩
  · exact .inl h
  · rw [Creates, h]
    exact creates_insertTask hinsert

theorem insertDelivery_tasks {taskId : String} (h : s.insertDelivery env taskId = .ok s') :
    s'.tasks = s.tasks := by
  unfold insertDelivery at h
  split at h
  · cases h
  · cases h
    rfl

theorem inserts_create (s : Store) (env : Env) (t : NewTask) : Inserts s (s.create env t).2 := by
  unfold create
  split
  · exact .inl rfl
  split
  · exact .inl rfl
  dsimp only
  split
  · split
    · exact .inl rfl
    · split <;> exact .inl rfl
  · rename_i s₁ hinsert
    split
    · exact .inr ⟨env, _, s₁, hinsert, rfl⟩
    · rename_i s₂ hdelivery
      exact .inr ⟨env, _, s₁, hinsert, insertDelivery_tasks hdelivery⟩

theorem inserts_createDispatched (s : Store) (env : Env) (t : NewTask) : Inserts s (s.createDispatched env t).2 := by
  have hcreate := inserts_create s env t
  unfold createDispatched
  split
  · exact .inl rfl
  · split
    · rename_i hresult
      rw [hresult] at hcreate
      split <;> exact hcreate
    · exact hcreate

theorem inserts_createIdempotent (s : Store) (env : Env) (t : NewTask) : Inserts s (s.createIdempotent env t).2 := by
  unfold createIdempotent
  split
  · exact inserts_createDispatched ..
  · split
    · exact .inl rfl
    · exact inserts_createDispatched ..
    · exact .inl rfl

theorem inserts_createFromRemote (s : Store) (env : Env) (t : NewTask) : Inserts s (s.createFromRemote env t).2 := by
  unfold createFromRemote
  split
  · exact .inl rfl
  · split
    · exact .inl rfl
    · exact .inl rfl
    · exact inserts_createDispatched ..

theorem Creates.lookup (h : Creates s s') (hrow : s.tasks.lookup id = some row) :
    s'.tasks.lookup id = some row := by
  rcases h with h | ⟨t, now, h⟩
  · rw [h, hrow]
  · rw [h, hrow, Option.some_or]

theorem Creates.lookup_none (h : Creates s s') (hnone : s.tasks.lookup id = none) :
    s'.tasks.lookup id = none ∨ ∃ (t : NewTask) (now : Int), s'.tasks.lookup id = some (t.row now) := by
  rcases h with h | ⟨t, now, h⟩
  · exact .inl (by rw [h, hnone])
  · rw [h, hnone, Option.none_or]
    split
    · exact .inr ⟨t, now, rfl⟩
    · exact .inl rfl

/-! ## Requeueing -/

/-- What a round of the loop writes to the row it is about. -/
def requeuedRow (now : Int) (row r : TaskRow) : TaskRow :=
  if pastDeadline now row ∨ spent row then noLease (failKeeping now "task lease expired after retry budget" r)
  else noLease { r with status := .submitted, updatedAt := now }

theorem lookup_requeue (now : Int) (row : TaskRow) (id : String) :
    (requeue now s row).tasks.lookup id =
      (s.tasks.lookup id).map fun r => if r.id = row.id then requeuedRow now row r else r := by
  unfold requeue requeuedRow
  split
  · refine lookup_update.trans ?_
    simp only [decide_eq_true_eq]
  · rw [addDelivery_tasks]
    refine lookup_update.trans ?_
    simp only [decide_eq_true_eq]

theorem lookup_foldl_requeue_of_notMem {rows : List TaskRow} (h : s.tasks.lookup id = some row)
    (hid : id ∉ rows.map TaskRow.id) : (rows.foldl (requeue now) s).tasks.lookup id = some row := by
  induction rows generalizing s with
  | nil => exact h
  | cons r rows ih =>
    simp only [List.map_cons, List.mem_cons, not_or] at hid
    refine ih ?_ hid.2
    rw [lookup_requeue, h, Option.map_some, if_neg]
    rw [id_of_lookup h]
    exact hid.1

theorem lookup_foldl_requeue_of_mem {rows : List TaskRow} (h : s.tasks.lookup id = some row)
    (hnodup : (rows.map TaskRow.id).Nodup) (hmem : row ∈ rows) :
    (rows.foldl (requeue now) s).tasks.lookup id = some (requeuedRow now row row) := by
  have hrid := id_of_lookup h
  induction rows generalizing s with
  | nil => cases hmem
  | cons r rows ih =>
    obtain ⟨hr, hrows⟩ := List.nodup_cons.mp hnodup
    rcases List.mem_cons.mp hmem with rfl | hmem
    · rw [List.foldl_cons]
      refine lookup_foldl_requeue_of_notMem ?_ (hrid ▸ hr)
      rw [lookup_requeue, h, Option.map_some, if_pos rfl]
    · have hne : row.id ≠ r.id := fun heq => hr (heq ▸ List.mem_map_of_mem hmem)
      refine ih ?_ hrows hmem
      rw [lookup_requeue, h, Option.map_some, if_neg hne]

/-- The loop of `requeueExpired`: the row is one of those whose lease has expired, or it is left as it is. -/
theorem lookup_foldl_expired (h : s.tasks.lookup id = some row) (now : Int) :
    row ∈ s.expired now ∧ ((s.expired now).foldl (requeue now) s).tasks.lookup id = some (requeuedRow now row row) ∨
      row ∉ s.expired now ∧ ((s.expired now).foldl (requeue now) s).tasks.lookup id = some row := by
  by_cases hexpired : row ∈ s.expired now
  · exact .inl ⟨hexpired, lookup_foldl_requeue_of_mem h (s.tasks.nodup_map_select _) hexpired⟩
  · refine .inr ⟨hexpired, lookup_foldl_requeue_of_notMem h fun hid => hexpired ?_⟩
    obtain ⟨r, hr, hrid⟩ := List.mem_map.mp hid
    have hrow := Table.lookup_eq_some.mp h
    rwa [← Table.eq_of_key_eq (Table.mem_select.mp hr).1 hrow.1 (hrid.trans hrow.2.symm)]

/-! ## Writing to one task -/

/-- Of the tasks at most one is written, by a statement about its id. -/
def Touches (id : String) (s s' : Store) : Prop :=
  s'.tasks = s.tasks ∨ ∃ (p : TaskRow → Bool) (f : TaskRow → TaskRow) (hf : ∀ r, (f r).id = r.id),
    (∀ r, p r = true → r.id = id) ∧ s'.tasks = (s.update p f hf).tasks

namespace Touches

theorem update {hf : ∀ r, (f r).id = r.id}
    (hp : ∀ r, p r = true → r.id = id) : Touches id s (s.update p f hf) := .inr ⟨p, f, hf, hp, rfl⟩

theorem lookup_of_ne (h : Touches id' s s') (hid : id' ≠ id) : s'.tasks.lookup id = s.tasks.lookup id := by
  rcases h with h | ⟨p, f, hf, hp, h⟩
  · rw [h]
  · rw [h]
    cases hrow : s.tasks.lookup id with
    | none => rw [lookup_update, hrow, Option.map_none]
    | some row =>
      refine update_other hrow (Bool.eq_false_iff.mpr fun hprow => hid ?_)
      exact (hp row hprow).symm.trans (id_of_lookup hrow)

end Touches

theorem holdsLease_eq_true {worker token : String} :
    holdsLease id worker token now row = true ↔ row.id = id ∧ row.status = .working ∧
      row.leaseOwner = some worker ∧ row.leaseToken = some token ∧ ∃ x, row.leaseExpiresAt = some x ∧ now < x := by
  simp only [holdsLease, Option.any_eq_true, decide_eq_true_eq]

/-- Of the rows of a table only that of the task can meet the condition. -/
theorem select_holdsLease (h : s.tasks.lookup id = some row) {worker token : String} :
    s.tasks.select (holdsLease id worker token now) = [] ↔ holdsLease id worker token now row = false := by
  obtain ⟨hmem, hid⟩ := Table.lookup_eq_some.mp h
  rw [Table.select, List.filter_eq_nil_iff]
  constructor
  · intro hall
    simpa using hall row hmem
  · intro hnot r hr hholds
    have heq := Table.eq_of_key_eq hr hmem ((holdsLease_eq_true.mp hholds).1.trans hid.symm)
    rw [heq, hnot] at hholds
    cases hholds

theorem holdsLease_of_select {worker token : String}
    (h : s.tasks.select (holdsLease id worker token now) ≠ []) :
    ∃ row, s.tasks.lookup id = some row ∧ holdsLease id worker token now row = true := by
  obtain ⟨row, hrow⟩ := List.exists_mem_of_ne_nil _ h
  obtain ⟨hmem, hholds⟩ := Table.mem_select.mp hrow
  exact ⟨row, Table.lookup_eq_some.mpr ⟨hmem, (holdsLease_eq_true.mp hholds).1⟩, hholds⟩

/-- The task an operation is about, if it is about one. -/
def Op.about : Op → Option String
  | .updateStatus id _ _ _ | .claim id _ _ | .setMaxAttempts id _ | .setTimeout id _ | .renewLease id _ _ _
  | .finishLease id _ _ _ _ _ => some id
  | _ => none

/-- Nothing is noticed of an operation on another task. -/
theorem quiet_of_about (h : op.about = some id') (hid : id' ≠ id) (out : Output) :
    Quiet id op out := by
  cases op <;> cases h
  case updateStatus | setMaxAttempts | setTimeout => trivial
  case claim | renewLease => rcases out with _ | _ | (err | l) <;> first | exact hid | trivial
  case finishLease => rcases out with _ | (_ | err | task) | _ <;> first | exact hid | trivial

/-- What an operation about one task does: nothing that is noticed, or a step of its row. -/
inductive OwnStep (env : Env) (op : Op) (id : String) (s : Store) (out : Output) (s' : Store) : Prop
  | idle (same : ∀ k, s'.tasks.lookup k = s.tasks.lookup k) (quiet : ∀ id, Quiet id op out)
  | row {r r' : TaskRow} (hrow : s.tasks.lookup id = some r) (touches : Touches id s s')
    (hrow' : s'.tasks.lookup id = some r') (step : RowStep id env r op out r')

theorem OwnStep.idle' (h : ∀ id, Quiet id op out) : OwnStep env op id s out s :=
  .idle (fun _ => rfl) h

/-- The row of the task is written. -/
theorem OwnStep.update
    {hf : ∀ r, (f r).id = r.id} (hrow : s.tasks.lookup id = some row) (hown : p row = true)
    (hp : ∀ r, p r = true → r.id = id) (hstep : RowStep id env row op out (f row)) :
    OwnStep env op id s out (s.update p f hf) := .row hrow (.update hp) (update_own hrow hown) hstep

section Calls

variable (s) (env : Env) (id worker token : String)

/-- A statement that writes a column of the row, whatever the row is. -/
theorem own_write (op : Op) {hf : ∀ r, (f r).id = r.id} (hquiet : ∀ id out, Quiet id op out)
    (hstep : ∀ row out, RowStep id env row op out (f row)) (result : Except TaskError Unit) :
    OwnStep env op id s (.done (s.write env (s.update (fun r => r.id = id) f hf) result).1)
      (s.write env (s.update (fun r => r.id = id) f hf) result).2 := by
  unfold write
  split
  · exact .idle' fun id => hquiet id _
  · have hp (r : TaskRow) (hr : decide (r.id = id) = true) : r.id = id := of_decide_eq_true hr
    cases hrow : s.tasks.lookup id with
    | none =>
      refine .idle (fun k => ?_) fun id => hquiet id _
      by_cases hk : id = k
      · rw [← hk, lookup_update, hrow, Option.map_none]
      · exact (Touches.update hp).lookup_of_ne hk
    | some row => exact .update hrow (decide_eq_true (id_of_lookup hrow)) hp (hstep row _)

theorem own_setMaxAttempts (max : Int) : OwnStep env (.setMaxAttempts id max) id s
    (.done (s.setMaxAttempts env id max).1) (s.setMaxAttempts env id max).2 := by
  unfold setMaxAttempts
  split
  · exact .idle' fun _ => trivial
  split
  · exact .idle' fun _ => trivial
  · exact own_write s env id (.setMaxAttempts id max) (fun _ _ => trivial) (fun _ _ => .maxAttempts) _

theorem own_setTimeout (timeout : Int) : OwnStep env (.setTimeout id timeout) id s
    (.done (s.setTimeout env id timeout).1) (s.setTimeout env id timeout).2 := by
  unfold setTimeout
  split
  · exact .idle' fun _ => trivial
  · exact own_write s env id (.setTimeout id timeout) (fun _ _ => trivial) (fun _ _ => .timeout) _

theorem own_updateStatus (status : TaskStatus) (errMsg : String) (outputs : List Artifact) :
    OwnStep env (.updateStatus id status errMsg outputs) id s (.task (s.updateStatus env id status errMsg outputs).1)
      (s.updateStatus env id status errMsg outputs).2 := by
  have hidle (out : Output) : OwnStep env (.updateStatus id status errMsg outputs) id s out s := .idle' fun _ => trivial
  unfold updateStatus
  split
  · exact hidle _
  split
  · exact hidle _
  split
  · exact hidle _
  rename_i row hrow
  split
  · exact hidle _
  · exact hidle _
  rename_i hvalid
  split
  · exact hidle _
  · exact .update hrow (decide_eq_true (id_of_lookup hrow)) (fun r hr => of_decide_eq_true hr) (.updated hvalid)

theorem own_claim (lease : Int) : OwnStep env (.claim id worker lease) id s (.lease (s.claim env id worker lease).1)
    (s.claim env id worker lease).2 := by
  have hidle (err : TaskError) : OwnStep env (.claim id worker lease) id s (.lease (.error err)) s := .idle' fun _ => trivial
  unfold claim
  split
  · exact hidle _
  split
  · exact hidle _
  rename_i row hrow
  have hid := id_of_lookup hrow
  have hown := decide_eq_true hid
  dsimp only
  split_ifs with hassignee hdeadline hlive hconflict hspent
  · exact hidle _
  · split
    · exact hidle _
    · have htouches := @Touches.update _ (failKeeping env.now "task deadline exceeded") s id (fun _ => rfl)
        fun r (hr : decide (r.id = id ∧ (r.status = .submitted ∨ r.status = .working)) = true) => (of_decide_eq_true hr).1
      by_cases hopen : row.status = .submitted ∨ row.status = .working
      · exact .row hrow htouches (update_own hrow (decide_eq_true ⟨hid, hopen⟩)) (.overdue hopen)
      · exact .row hrow htouches (update_other hrow (decide_eq_false fun hand => hopen hand.2)) (.same trivial)
  · split
    · exact hidle _
    · exact .row hrow (.inl rfl) hrow (.reclaimed (not_not.mp hassignee) hlive.1 hlive.2.1 hlive.2.2)
  · exact hidle _
  · have hopen : row.status = .submitted ∨ row.status = .working := by tauto
    split
    · exact hidle _
    · exact .update hrow hown (fun r hr => of_decide_eq_true hr) (.exhausted hopen)
  · split
    · exact hidle _
    split
    · exact hidle _
    · exact .update hrow hown (fun r hr => of_decide_eq_true hr) (.claimed (not_not.mp hassignee) (by tauto))

theorem own_renewLease (lease : Int) : OwnStep env (.renewLease id worker token lease) id s
    (.lease (s.renewLease env id worker token lease).1) (s.renewLease env id worker token lease).2 := by
  unfold renewLease
  split
  · exact .idle' fun _ => trivial
  dsimp only
  split
  · exact .idle' fun _ => trivial
  · rename_i hsome
    obtain ⟨row, hrow, hholds⟩ := holdsLease_of_select hsome
    exact .update hrow hholds (fun r hr => (holdsLease_eq_true.mp hr).1) (.renewed hholds)

theorem own_finishLease (status : TaskStatus) (errMsg : String) (outputs : List Artifact) :
    OwnStep env (.finishLease id worker token status errMsg outputs) id s
      (.task (s.finishLease env id worker token status errMsg outputs).1)
      (s.finishLease env id worker token status errMsg outputs).2 := by
  unfold finishLease
  split
  · exact .idle' fun _ => trivial
  rename_i hstatus
  split
  · exact .idle' fun _ => trivial
  dsimp only
  split
  · exact .idle' fun _ => trivial
  · rename_i hsome
    obtain ⟨row, hrow, hholds⟩ := holdsLease_of_select hsome
    exact .update hrow hholds (fun r hr => (holdsLease_eq_true.mp hr).1) (.finished hholds (by tauto))

end Calls

/-! ## The operations -/

theorem step_own (s : Store) (i : Input) (h : i.op.about = some id) :
    OwnStep i.env i.op id s (step s i).1 (step s i).2 := by
  obtain ⟨env, op⟩ := i
  cases op <;> cases h
  case updateStatus status errMsg outputs => exact own_updateStatus s env id status errMsg outputs
  case claim worker lease => exact own_claim s env id worker lease
  case setMaxAttempts max => exact own_setMaxAttempts s env id max
  case setTimeout timeout => exact own_setTimeout s env id timeout
  case renewLease worker token lease => exact own_renewLease s env id worker token lease
  case finishLease worker token status errMsg outputs => exact own_finishLease s env id worker token status errMsg outputs

/-- An operation that is about no task inserts at most one row, or it gives leases back that have expired. -/
theorem step_unaddressed (s : Store) (i : Input) (h : i.op.about = none) : Inserts s (step s i).2 ∨ i.op = .requeueExpired := by
  obtain ⟨env, op⟩ := i
  cases op <;> cases h
  case createIdempotent t => exact .inl (inserts_createIdempotent s env t)
  case createFromRemote t => exact .inl (inserts_createFromRemote s env t)
  case requeueExpired => exact .inr rfl
  case insertTask t =>
    simp only [step, settle]
    split
    · exact .inl (.inl rfl)
    · rename_i s' hinsert
      exact .inl (.inr ⟨env, t, s', hinsert, rfl⟩)
  case insertDelivery taskId =>
    simp only [step, settle]
    split
    · exact .inl (.inl rfl)
    · rename_i s' hdelivery
      exact .inl (.inl (insertDelivery_tasks hdelivery))

theorem quiet_of_about_none (h : op.about = none) (id : String) (out : Output) : Quiet id op out := by
  cases op <;> cases h <;> trivial

theorem requeueExpired_row (h : s.tasks.lookup id = some row) (env : Env) (out : Output) :
    ∃ row', (s.requeueExpired env).2.tasks.lookup id = some row' ∧ RowStep id env row .requeueExpired out row' := by
  have hsame : RowStep id env row .requeueExpired out row := .same trivial
  unfold requeueExpired write
  split
  · exact ⟨row, h, hsame⟩
  split
  · exact ⟨row, h, hsame⟩
  dsimp only
  rcases lookup_foldl_expired h env.now with ⟨hexpired, hlookup⟩ | ⟨-, hlookup⟩
  · refine ⟨_, hlookup, ?_⟩
    have hworking : row.status = .working := by
      simp only [expired, Table.mem_select, decide_eq_true_eq] at hexpired
      exact hexpired.2.1
    unfold requeuedRow
    split
    · exact .abandoned hworking
    · exact .requeued hworking
  · exact ⟨row, hlookup, hsame⟩

theorem requeueExpired_none (h : s.tasks.lookup id = none) (env : Env) :
    (s.requeueExpired env).2.tasks.lookup id = none := by
  have hloop (rows : List TaskRow) (s : Store) (h : s.tasks.lookup id = none) :
      (rows.foldl (requeue env.now) s).tasks.lookup id = none := by
    induction rows generalizing s with
    | nil => exact h
    | cons r rows ih => exact ih _ (by rw [lookup_requeue, h, Option.map_none])
  unfold requeueExpired write
  split
  · exact h
  split
  · exact h
  · exact hloop _ s h

/-- An operation about another task leaves the row as it is. -/
theorem lookup_step_of_ne {i : Input} (habout : i.op.about = some id') (hid : id' ≠ id) :
    (step s i).2.tasks.lookup id = s.tasks.lookup id := by
  cases step_own s i habout with
  | idle hsame hquiet => exact hsame id
  | row hrow htouches hrow' hstep => exact htouches.lookup_of_ne hid

/-- **What an operation does to a row.** -/
theorem step_row (h : s.tasks.lookup id = some row) (i : Input) :
    ∃ row', (step s i).2.tasks.lookup id = some row' ∧ RowStep id i.env row i.op (step s i).1 row' := by
  cases habout : i.op.about with
  | none =>
    rcases step_unaddressed s i habout with hinserts | hrequeue
    · exact ⟨row, hinserts.creates.lookup h, .same (quiet_of_about_none habout id _)⟩
    · obtain ⟨env, op⟩ := i
      cases hrequeue
      exact requeueExpired_row h env _
  | some id' =>
    by_cases hid : id' = id
    · subst hid
      cases step_own s i habout with
      | idle hsame hquiet => exact ⟨row, (hsame _).trans h, .same (hquiet _)⟩
      | @row r r' hrow htouches hrow' hstep =>
        obtain rfl := Option.some.inj (hrow.symm.trans h)
        exact ⟨r', hrow', hstep⟩
    · exact ⟨row, (lookup_step_of_ne habout hid).trans h, .same (quiet_of_about habout hid _)⟩

/-! ## Tasks that are not there -/

theorem lookup_none_of_about {i : Input} (habout : i.op.about = some id') (h : s.tasks.lookup id = none) :
    (step s i).2.tasks.lookup id = none ∧ Quiet id i.op (step s i).1 := by
  cases step_own s i habout with
  | idle hsame hquiet => exact ⟨(hsame id).trans h, hquiet id⟩
  | row hrow htouches hrow' hstep =>
    have hid : id' ≠ id := by
      rintro rfl
      rw [hrow] at h
      cases h
    exact ⟨(htouches.lookup_of_ne hid).trans h, quiet_of_about habout hid _⟩

/-- An operation inserts at most one row, or it leaves the ids as they are. -/
theorem step_inserts (s : Store) (i : Input) :
    Inserts s (step s i).2 ∨ ∀ id, s.tasks.lookup id = none → (step s i).2.tasks.lookup id = none := by
  cases habout : i.op.about with
  | some id' => exact .inr fun id h => (lookup_none_of_about habout h).1
  | none =>
    rcases step_unaddressed s i habout with hinserts | hrequeue
    · exact .inl hinserts
    · obtain ⟨env, op⟩ := i
      cases hrequeue
      exact .inr fun id h => requeueExpired_none h env

/-- **What an operation does to a task that is not there**: the task may be created. -/
theorem step_none (h : s.tasks.lookup id = none) (i : Input) :
    ((step s i).2.tasks.lookup id = none ∨
      ∃ (t : NewTask) (now : Int), (step s i).2.tasks.lookup id = some (t.row now)) ∧
      Quiet id i.op (step s i).1 := by
  constructor
  · rcases step_inserts s i with hinserts | hnone
    · exact hinserts.creates.lookup_none h
    · exact .inl (hnone id h)
  · cases habout : i.op.about with
    | some id' => exact (lookup_none_of_about habout h).2
    | none => exact quiet_of_about_none habout id _

/-! ## What never changes -/

/-- The columns of a task that no operation writes. -/
structure SameTask (row row' : TaskRow) : Prop where
  initiator : row'.initiator = row.initiator
  assignee : row'.assignee = row.assignee
  threadId : row'.threadId = row.threadId
  skill : row'.skill = row.skill
  inputArtifacts : row'.inputArtifacts = row.inputArtifacts
  metadata : row'.metadata = row.metadata
  createdAt : row'.createdAt = row.createdAt
  idempotencyKey : row'.idempotencyKey = row.idempotencyKey

theorem SameTask.refl (row : TaskRow) : SameTask row row := ⟨rfl, rfl, rfl, rfl, rfl, rfl, rfl, rfl⟩

theorem SameTask.trans {row₁ row₂ row₃ : TaskRow} (h : SameTask row₁ row₂) (h' : SameTask row₂ row₃) :
    SameTask row₁ row₃ :=
  ⟨h'.initiator.trans h.initiator, h'.assignee.trans h.assignee, h'.threadId.trans h.threadId, h'.skill.trans h.skill,
    h'.inputArtifacts.trans h.inputArtifacts, h'.metadata.trans h.metadata, h'.createdAt.trans h.createdAt,
    h'.idempotencyKey.trans h.idempotencyKey⟩

theorem RowStep.sameTask {row' : TaskRow}
    (h : RowStep id env row op out row') : SameTask row row' := by
  cases h <;> exact ⟨rfl, rfl, rfl, rfl, rfl, rfl, rfl, rfl⟩

/-! ## Terminal tasks -/

theorem canTransition_of_terminal {source target : TaskStatus} (h : terminal source = true) :
    canTransition source target ≠ some true := by
  simp only [terminal, decide_eq_true_eq] at h
  unfold canTransition
  rcases h with rfl | rfl | rfl <;> cases target <;> simp [knownStatuses, validTransitions]

/-- What is frozen: the status, the error and the output of a task. -/
structure SameOutcome (row row' : TaskRow) : Prop where
  status : row'.status = row.status
  error : row'.error = row.error
  outputArtifacts : row'.outputArtifacts = row.outputArtifacts

theorem RowStep.sameOutcome {row' : TaskRow}
    (h : RowStep id env row op out row') (hterminal : terminal row.status = true) : SameOutcome row row' := by
  have hclosed : row.status ≠ .submitted ∧ row.status ≠ .working := by
    constructor <;> (intro hstatus; rw [hstatus] at hterminal; cases hterminal)
  cases h with
  | same => exact ⟨rfl, rfl, rfl⟩
  | updated hvalid => exact absurd hvalid (canTransition_of_terminal hterminal)
  | overdue hopen => exact absurd hopen (by tauto)
  | exhausted hopen => exact absurd hopen (by tauto)
  | reclaimed => exact ⟨rfl, rfl, rfl⟩
  | claimed _ hfree => exact absurd hfree (by tauto)
  | renewed hholds => exact absurd (holdsLease_eq_true.mp hholds).2.1 hclosed.2
  | finished hholds => exact absurd (holdsLease_eq_true.mp hholds).2.1 hclosed.2
  | requeued hworking => exact absurd hworking hclosed.2
  | abandoned hworking => exact absurd hworking hclosed.2
  | maxAttempts => exact ⟨rfl, rfl, rfl⟩
  | timeout => exact ⟨rfl, rfl, rfl⟩

/-- **Terminal tasks are frozen**: from a moment at which the status of a task is terminal, its status,
error and output stay as they are, whatever operations follow and whatever the clock says. -/
theorem terminal_frozen (h : s.tasks.lookup id = some row) (hterminal : terminal row.status = true)
    (is : List Input) : ∃ row', (runs step s is).tasks.lookup id = some row' ∧ SameOutcome row row' := by
  induction is using List.reverseRecOn with
  | nil => exact ⟨row, h, rfl, rfl, rfl⟩
  | append_singleton is i ih =>
    obtain ⟨row₁, hrow₁, hsame₁⟩ := ih
    obtain ⟨row₂, hrow₂, hstep⟩ := step_row hrow₁ i
    have hsame₂ := hstep.sameOutcome (hsame₁.status ▸ hterminal)
    rw [runs_concat]
    exact ⟨row₂, hrow₂, hsame₂.status.trans hsame₁.status, hsame₂.error.trans hsame₁.error,
      hsame₂.outputArtifacts.trans hsame₁.outputArtifacts⟩

end Rows

/-! A worker claims a task and completes it. -/
namespace Errand

/-- The environment at a time in milliseconds, where nothing fails. -/
def moment (millis : Int) (token : String) : Env := ⟨millis * 1000000, "uuid", token, fun _ => none⟩

def order : NewTask := ⟨"errand", "did:client", "did:worker", "", "fetch", [], [], ""⟩

/-- The task is created and claimed for a second. -/
def taken : List Input :=
  [⟨moment 1 "k1", .createFromRemote order⟩, ⟨moment 2 "k2", .claim "errand" "did:worker" 1000000000⟩]

/-- The worker completes the task. -/
def completed : Store :=
  runs step .empty (taken ++ [⟨moment 3 "k3", .finishLease "errand" "did:worker" "k2" .completed "" []⟩])

end Errand

open Errand in
theorem terminal_frozen_errand : ∃ row, completed.tasks.lookup "errand" = some row ∧ row.status = .completed ∧
    ∃ row', (runs step completed [⟨moment 4 "k4", .updateStatus "errand" .cancelled "too late" []⟩,
      ⟨moment 5000 "k5", .requeueExpired⟩]).tasks.lookup "errand" = some row' ∧ SameOutcome row row' :=
  ⟨_, rfl, rfl, terminal_frozen rfl rfl _⟩

end MoltMesh.Tasks

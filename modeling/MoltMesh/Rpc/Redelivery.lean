import MoltMesh.Rpc.Results

/-!
# Results that are delivered again

A result is delivered until `handleTaskResult` returns no error.  The first thing it looks at is the
status of the task: if that is the one of the result, everything is taken to be done.  So the event and
the entry come with the delivery that writes the status, or not at all (`result_once_iff`).
-/

namespace MoltMesh.Rpc

open MoltMesh.Lib MoltMesh.Tasks MoltMesh.Tasks.Store

variable {r : TaskRow} {S : TaskServer}

/-- The events of a task. -/
def eventsOf (S : TaskServer) (id : String) : List TaskEvent := S.events.select fun e => e.taskId = id

/-- The results that have been enqueued for a thread. -/
def entriesOf (S : TaskServer) (threadId : String) : List PendingRow :=
  S.db.pending.select fun r => r.threadId = threadId ∧ r.payload.kind = "task_result"

/-- Between two states one event has been saved and, if the task has a thread, one entry has been enqueued. -/
def Once (row : TaskRow) (S S' : TaskServer) : Prop :=
  (eventsOf S' row.id).length = (eventsOf S row.id).length + 1 ∧
    (row.threadId ≠ "" → (entriesOf S' row.threadId).length = (entriesOf S row.threadId).length + 1)

/-- A call of `UpdateStatus` gets as far as its write, if the statuses allow it. -/
def Clear (env : Tasks.Env) : Prop :=
  env.fails .dispatch = none ∧ env.fails .read = none ∧ env.fails .write = none

/-- A delivery writes the status of the result. -/
def Applies (env : ResultEnv) (row : TaskRow) : Prop :=
  env.get.fails .get = none ∧
    (row.status = .working ∨ row.status = .submitted ∧ Clear env.start ∧ env.start.fails .get = none) ∧
    Clear env.update

/-- What follows the status is done: the task is read, the event is saved under a number of its own, and the entry is
enqueued. -/
def Complete (S : TaskServer) (env : ResultEnv) (row : TaskRow) : Prop :=
  env.update.fails .get = none ∧ row.id ≠ "" ∧ env.saveEvent = none ∧
    (∀ e ∈ S.events.rows, e.taskId = row.id → e.seq ≠ env.seq) ∧
    (row.threadId ≠ "" → S.hasThreads = true ∧ (∃ data, env.marshal = .ok data) ∧
      env.thread.fails .enqueueEntry = none)

/-! ## Events and entries -/

section Counts

variable {S : TaskServer} {env : ResultEnv} {msg : Message} {result : TaskResult}

theorem length_eventsOf_insert (e : TaskEvent) :
    (eventsOf { S with events := S.events.insertOrIgnore e } e.taskId).length = (eventsOf S e.taskId).length +
      if (∀ e' ∈ S.events.rows, e'.taskId = e.taskId → e'.seq ≠ e.seq) then 1 else 0 := by
  unfold eventsOf Table.select Table.insertOrIgnore
  dsimp only
  by_cases hfree : ∀ e' ∈ S.events.rows, e'.taskId = e.taskId → e'.seq ≠ e.seq
  · have hkey : (e.taskId, e.seq) ∉ S.events.rows.map fun e => (e.taskId, e.seq) := by
      intro hmem
      obtain ⟨e', he', heq⟩ := List.mem_map.mp hmem
      exact hfree e' he' (Prod.ext_iff.mp heq).1 (Prod.ext_iff.mp heq).2
    rw [dif_neg hkey, if_pos hfree, List.filter_append, List.length_append, List.filter_singleton]
    simp
  · have hkey : (e.taskId, e.seq) ∈ S.events.rows.map fun e => (e.taskId, e.seq) := by
      push Not at hfree
      obtain ⟨e', he', htask, hseq⟩ := hfree
      exact List.mem_map.mpr ⟨e', he', by rw [htask, hseq]⟩
    rw [dif_pos hkey, if_neg hfree]
    rfl

/-- What appending a result does: at most one entry is enqueued, whether or not its actor is told. -/
theorem appendResult_entries (hfresh : ∀ r ∈ S.db.pending.rows, r.id ≤ S.db.pendingSeq) (threadId : String) :
    (appendResult S env msg threadId).2.events = S.events ∧
      (threadId ≠ "" → ((entriesOf (appendResult S env msg threadId).2 threadId).length =
        (entriesOf S threadId).length + 1 ↔ S.hasThreads = true ∧ (∃ data, env.marshal = .ok data) ∧
          env.thread.fails .enqueueEntry = none)) := by
  unfold appendResult managerAppendEntry
  split
  · rename_i hthread
    cases hmarshal : env.marshal with
    | error err =>
      refine ⟨rfl, fun _ => iff_of_false (Nat.ne_of_lt (Nat.lt_succ_self _)) ?_⟩
      rintro ⟨-, ⟨_, ⟨⟩⟩, -⟩
    | ok data =>
    cases henqueue : env.thread.fails .enqueueEntry with
    | some err =>
      refine ⟨rfl, fun _ => iff_of_false (Nat.ne_of_lt (Nat.lt_succ_self _)) ?_⟩
      rintro ⟨-, -, ⟨⟩⟩
    | none =>
      -- The entry is there, and what follows leaves the database alone.
      have hlength (S' : TaskServer) (hdb : S'.db.pending =
          (S.db.enqueueEntry threadId (resultEntry env msg.fromDid data) env.thread.now).pending) :
          (entriesOf S' threadId).length = (entriesOf S threadId).length + 1 := by
        have hfree : S.db.pendingSeq + 1 ∉ S.db.pending.rows.map PendingRow.id := by
          intro hmem
          obtain ⟨r, hr, hid⟩ := List.mem_map.mp hmem
          have hle := hfresh r hr
          omega
        rw [entriesOf, hdb, Table.select, MoltMesh.Store.enqueueEntry, Table.rows_insertOrReplace_of_free hfree,
          List.filter_append, List.length_append, List.filter_singleton]
        simp [resultEntry, entriesOf, Table.select]
      have hright : S.hasThreads = true ∧ (∃ data', Except.ok data = Except.ok (ε := String) data') ∧ none = none (α := String) :=
        ⟨hthread.2, ⟨data, rfl⟩, rfl⟩
      cases env.thread.fails .activate with
      | some err => exact ⟨rfl, fun _ => iff_of_true (hlength _ rfl) hright⟩
      | none =>
      cases env.thread.fails .tell with
      | some err => exact ⟨rfl, fun _ => iff_of_true (hlength _ rfl) hright⟩
      | none => exact ⟨rfl, fun _ => iff_of_true (hlength _ rfl) hright⟩
  · rename_i hthread
    refine ⟨rfl, fun hid => iff_of_false (Nat.ne_of_lt (Nat.lt_succ_self _)) fun h => hthread ⟨hid, h.1⟩⟩

/-- What follows the status: the event and the entry come once exactly if nothing of it fails. -/
theorem recordResult_once (hfresh : ∀ r ∈ S.db.pending.rows, r.id ≤ S.db.pendingSeq) {row : TaskRow} {task : Task}
    (hid : task.id = row.id) (hthread : task.threadId = row.threadId) (updated : Task) :
    (recordResult S env msg result task updated).2.tasks = S.tasks ∧
      (Once row S (recordResult S env msg result task updated).2 ↔ row.id ≠ "" ∧ env.saveEvent = none ∧
        (∀ e ∈ S.events.rows, e.taskId = row.id → e.seq ≠ env.seq) ∧
        (row.threadId ≠ "" → S.hasThreads = true ∧ (∃ data, env.marshal = .ok data) ∧
          env.thread.fails .enqueueEntry = none)) := by
  refine ⟨(recordResult_ok task updated).1, ?_⟩
  have hunsaved : ¬Once row S S := fun h => Nat.ne_of_lt (Nat.lt_succ_self _) h.1
  have htask : (resultEvent env task.id updated.status result).taskId = row.id := hid
  unfold recordResult saveEvent
  rw [htask]
  by_cases hblank : row.id = ""
  · rw [if_pos hblank]
    exact iff_of_false hunsaved fun h => h.1 hblank
  rw [if_neg hblank]
  cases hsave : env.saveEvent with
  | some err => exact iff_of_false hunsaved (by rintro ⟨-, ⟨⟩, -⟩)
  | none =>
    dsimp only
    have hcount := @length_eventsOf_insert S (resultEvent env task.id updated.status result)
    have hseq : (resultEvent env task.id updated.status result).seq = env.seq := rfl
    rw [htask, hseq] at hcount
    generalize hS' : ({ S with events := S.events.insertOrIgnore (resultEvent env task.id updated.status result) } :
      TaskServer) = S' at hcount ⊢
    have hdb : S'.db = S.db := by rw [← hS']
    have hthreads : S'.hasThreads = S.hasThreads := by rw [← hS']
    obtain ⟨hevents, hentries⟩ := @appendResult_entries S' env msg (hdb.symm ▸ hfresh) task.threadId
    rw [hthread, hthreads] at hentries
    have hevents' : eventsOf (appendResult S' env msg task.threadId).2 row.id = eventsOf S' row.id := by
      rw [eventsOf, hevents, eventsOf]
    have hold : entriesOf S' row.threadId = entriesOf S row.threadId := by
      rw [entriesOf, hdb, entriesOf]
    rw [hold] at hentries
    rw [Once, hevents', hcount, hthread, Nat.add_left_cancel_iff]
    constructor
    · rintro ⟨hone, hentry⟩
      refine ⟨hblank, rfl, ?_, fun h => (hentries h).mp (hentry h)⟩
      by_contra hnot
      rw [if_neg hnot] at hone
      cases hone
    · rintro ⟨-, -, hseq, hentry⟩
      exact ⟨if_pos hseq, fun h => (hentries h).mpr (hentry h)⟩

end Counts

/-! ## One delivery -/

section Deliver

variable {S : TaskServer} {env : ResultEnv} {msg : Message} {result : TaskResult} {row : TaskRow}

theorem writes_working {e : Tasks.Env} {target : TaskStatus} (h : row.status = .working)
    (htarget : Tasks.terminal target = true) : Writes e row target ↔ Clear e := by
  have hvalid : canTransition row.status target = some true := by
    rw [h, canTransition_working, if_pos (known_of_terminal htarget), htarget]
  rw [Writes, hvalid, Clear]
  tauto

theorem writes_submitted {e : Tasks.Env} (h : row.status = .submitted) : Writes e row .working ↔ Clear e := by
  have hvalid : canTransition row.status .working = some true := by
    rw [h]
    rfl
  rw [Writes, hvalid, Clear]
  tauto

/-- The update of the status, when the task has been started. -/
theorem writeResult_cases {s : Tasks.Store} {row₁ : TaskRow} (hfresh : ∀ r ∈ S.db.pending.rows, r.id ≤ S.db.pendingSeq)
    (hrow₁ : s.tasks.lookup row.id = some row₁) (hworking : row₁.status = .working) (hsame : SameTask row row₁)
    (houtcome : Outcome result.status) :
    let out := writeResult { S with tasks := s } env msg result row.task
    (¬Clear env.update ∧ out.1 ≠ some (.ok ()) ∧ ∃ s', out.2 = { S with tasks := s' } ∧
      s'.tasks.lookup row.id = some row₁) ∨
    (Clear env.update ∧ (∃ row', out.2.tasks.tasks.lookup row.id = some row' ∧ row'.status = result.status ∧
      SameTask row row') ∧ (Once row S out.2 ↔ Complete S env row)) := by
  intro out
  have hid : row.task.id = row.id := rfl
  have hwrites := @writes_working row₁ env.update result.status hworking houtcome.terminal
  rcases @updateStatus_cases s env.update row.id row₁ hrow₁ result.status result.error result.outputArtifacts with
    ⟨hdone, s', hrow', heq⟩ | ⟨hnot, hsame', hnone⟩
  · refine .inr ⟨hwrites.mp hdone, ?_⟩
    have hrowsame : SameTask row (setStatus env.update.now result.status result.error result.outputArtifacts row₁) :=
      ⟨hsame.initiator, hsame.assignee, hsame.threadId, hsame.skill, hsame.inputArtifacts, hsame.metadata,
        hsame.createdAt, hsame.idempotencyKey⟩
    have hknown : knownStatuses result.status = true := known_of_terminal houtcome.terminal
    cases hget : env.update.fails .get with
    | some err =>
      have hout : out = (some (.error (.store "" (.db err))), { S with tasks := s' }) := by
        simp only [out, writeResult, hid, heq, Store.get, hget, stored]
      rw [hout]
      refine ⟨⟨_, hrow', rfl, hrowsame⟩, iff_of_false (fun h => Nat.ne_of_lt (Nat.lt_succ_self _) h.1) ?_⟩
      rintro ⟨hread, -⟩
      cases hget.symm.trans hread
    | none =>
      have hread := get_smooth hget hrow'
      rw [if_pos (by exact hknown)] at hread
      generalize hupdated : (setStatus env.update.now result.status result.error result.outputArtifacts row₁).task =
        updated at hread
      have hout : out = (recordResult { S with tasks := s' } env msg result row.task updated).map some fun S => S := by
        simp only [out, writeResult, hid, heq, hread, stored]
      obtain ⟨htasks, honce⟩ := @recordResult_once { S with tasks := s' } env msg result hfresh row row.task rfl rfl updated
      rw [hout]
      dsimp only [Prod.map_snd]
      rw [htasks]
      refine ⟨⟨_, hrow', rfl, hrowsame⟩, honce.trans ?_⟩
      exact ⟨fun h => ⟨hget, h⟩, fun h => h.2⟩
  · refine .inl ⟨fun h => hnot (hwrites.mpr h), ?_⟩
    dsimp only [out, writeResult]
    rw [hid]
    generalize s.updateStatus env.update row.id result.status result.error result.outputArtifacts = updating at hsame' hnone ⊢
    obtain ⟨_ | _ | task, s'⟩ := updating
    · cases hsame'
      exact ⟨by rintro ⟨⟩, s', rfl, hrow₁⟩
    · cases hsame'
      exact ⟨by rintro ⟨⟩, s', rfl, hrow₁⟩
    · exact absurd rfl (hnone task)

theorem matches_of_sameTask {row' : TaskRow} (h : SameTask row row') (hid : row'.id = row.id) :
    Matches msg row'.task = Matches msg row.task := by
  unfold Matches TaskRow.task
  rw [h.initiator, h.assignee, h.threadId, hid]

/-- Starting the task. -/
theorem startTask_cases (hrow : S.tasks.tasks.lookup row.id = some row)
    (hopen : row.status = .submitted ∨ row.status = .working) :
    let out := startTask S env row.task
    let started := row.status = .submitted → Clear env.start ∧ env.start.fails .get = none
    (¬started ∧ out.1 ≠ some (.ok ()) ∧ ∃ s' r, out.2 = { S with tasks := s' } ∧ s'.tasks.lookup row.id = some r ∧
      Tasks.terminal r.status = false ∧ SameTask row r) ∨
    (started ∧ ∃ s' r, out = (some (.ok ()), { S with tasks := s' }) ∧ s'.tasks.lookup row.id = some r ∧
      r.status = .working ∧ SameTask row r) := by
  intro out started
  rcases hopen with hsubmitted | hworking
  · have hout : out = startTask S env row.task := rfl
    rw [startTask, if_pos (show row.task.status = _ from hsubmitted), startWork_eq, show row.task.id = row.id from rfl] at hout
    rcases @updateStatus_cases S.tasks env.start row.id row hrow .working "" [] with
      ⟨hwrites, s', hrow', heq⟩ | ⟨hnot, hsame, hnone⟩
    · rw [heq] at hout
      cases hget : env.start.fails .get with
      | some err =>
        refine .inl ⟨fun h => ?_, ?_⟩
        · cases hget.symm.trans (h hsubmitted).2
        · rw [hout, Store.get, hget]
          exact ⟨by rintro ⟨⟩, s', _, rfl, hrow', rfl, ⟨rfl, rfl, rfl, rfl, rfl, rfl, rfl, rfl⟩⟩
      | none =>
        refine .inr ⟨fun _ => ⟨(writes_submitted hsubmitted).mp hwrites, hget⟩, s', _, ?_, hrow', rfl,
          ⟨rfl, rfl, rfl, rfl, rfl, rfl, rfl, rfl⟩⟩
        rw [hout, get_smooth hget hrow']
        rfl
    · refine .inl ⟨fun h => hnot ((writes_submitted hsubmitted).mpr (h hsubmitted).1), ?_⟩
      rw [hout]
      generalize S.tasks.updateStatus env.start row.id .working "" [] = starting at hsame hnone ⊢
      obtain ⟨_ | _ | task, s'⟩ := starting
      · cases hsame
        exact ⟨by rintro ⟨⟩, _, row, rfl, hrow, by rw [hsubmitted]; rfl, .refl row⟩
      · cases hsame
        exact ⟨by rintro ⟨⟩, _, row, rfl, hrow, by rw [hsubmitted]; rfl, .refl row⟩
      · exact absurd rfl (hnone task)
  · refine .inr ⟨fun h => ?_, S.tasks, row, ?_, hrow, hworking, .refl row⟩
    · cases hworking.symm.trans h
    · have hnot : row.task.status ≠ .submitted := fun h => by cases hworking.symm.trans h
      simp only [out, startTask, if_neg hnot]

/-- A result for a task that has its status is not looked at again. -/
theorem handle_settled (hpayload : msg.payload = .taskResult result) (hrow : S.tasks.tasks.lookup row.id = some row)
    (hid : row.id = result.taskId) (hmatches : Matches msg row.task = true) (houtcome : Outcome result.status)
    (hsettled : row.status = result.status) : (handleTaskResult S env msg).2 = S := by
  have hstatus : row.task.status = result.status ∧ Tasks.terminal row.task.status = true :=
    ⟨hsettled, by rw [show row.task.status = result.status from hsettled]; exact houtcome.terminal⟩
  unfold handleTaskResult
  rw [hpayload]
  dsimp only
  rw [← hid]
  cases hget : env.get.fails .get with
  | some err =>
    rw [Store.get, hget]
  | none =>
    rw [get_smooth hget hrow]
    by_cases hknown : knownStatuses row.status = true
    · rw [if_pos hknown]
      dsimp only
      rw [if_neg (not_not.mpr hmatches), if_pos hstatus]
    · rw [if_neg hknown]

/-- **One delivery** of a result to a task that does not have its status: it either leaves the task waiting and returns
an error, or it writes the status, and then all that belongs to it is done exactly if it is complete. -/
theorem handle_cases (hpayload : msg.payload = .taskResult result) (hrow : S.tasks.tasks.lookup row.id = some row)
    (hid : row.id = result.taskId) (hmatches : Matches msg row.task = true) (houtcome : Outcome result.status)
    (hfresh : ∀ r ∈ S.db.pending.rows, r.id ≤ S.db.pendingSeq) (hwaiting : row.status ≠ result.status) :
    let out := handleTaskResult S env msg
    (¬Applies env row ∧ out.1 ≠ some (.ok ()) ∧ ∃ s' r, out.2 = { S with tasks := s' } ∧
      s'.tasks.lookup row.id = some r ∧ r.status ≠ result.status ∧ SameTask row r) ∨
    (Applies env row ∧ (∃ r, out.2.tasks.tasks.lookup row.id = some r ∧ r.status = result.status ∧ SameTask row r) ∧
      (Once row S out.2 ↔ Complete S env row)) := by
  intro out
  have hne {r : TaskRow} (hopen : Tasks.terminal r.status = false) : r.status ≠ result.status := fun h => by
    rw [h, houtcome.terminal] at hopen
    cases hopen
  -- A delivery that stops before it has written anything.
  have hstops (result' : Option (Except TaskRpcError Unit)) (hout : out = (result', S)) (hnil : result' ≠ some (.ok ()))
      (hnot : ¬Applies env row) :
      ¬Applies env row ∧ out.1 ≠ some (.ok ()) ∧ ∃ s' r, out.2 = { S with tasks := s' } ∧
        s'.tasks.lookup row.id = some r ∧ r.status ≠ result.status ∧ SameTask row r := by
    rw [hout]
    exact ⟨hnot, hnil, S.tasks, row, rfl, hrow, hwaiting, .refl row⟩
  cases hget : env.get.fails .get with
  | some err =>
    refine .inl (hstops (some (.error (.store "" (.db err)))) ?_ (by rintro ⟨⟩) fun h => ?_)
    · simp only [out, handleTaskResult, hpayload, Store.get, hget]
    · cases hget.symm.trans h.1
  | none =>
  by_cases hknown : knownStatuses row.status = true
  swap
  · refine .inl (hstops none ?_ (by rintro ⟨⟩) fun h => ?_)
    · simp only [out, handleTaskResult, hpayload, ← hid, get_smooth hget hrow, if_neg hknown]
    · rcases h.2.1 with h | ⟨h, -⟩ <;> (rw [h] at hknown; exact hknown rfl)
  have hout : out = applyResult S env msg result row.task := by
    have hnot : ¬(row.task.status = result.status ∧ Tasks.terminal row.task.status = true) := fun h => hwaiting h.1
    simp only [out, handleTaskResult, hpayload, ← hid, get_smooth hget hrow, if_pos hknown, hmatches, if_neg hnot,
      not_true_eq_false, if_false]
  rcases or_assoc.mpr (known_cases hknown) with hopen | hclosed
  · rcases @startTask_cases S env row hrow hopen with
      ⟨hnot, hnil, s', r, hS', hr, hropen, hsame⟩ | ⟨hstarted, s', r, hstart, hr, hworking, hsame⟩
    · refine .inl ⟨fun h => hnot fun hsubmitted => ?_, ?_⟩
      · rcases h.2.1 with h | ⟨-, h⟩
        · cases hsubmitted.symm.trans h
        · exact h
      · rw [hout, applyResult]
        generalize startTask S env row.task = starting at hnil hS' ⊢
        obtain ⟨_ | _ | _, S'⟩ := starting
        · exact ⟨by rintro ⟨⟩, s', r, hS', hr, hne hropen, hsame⟩
        · exact ⟨by rintro ⟨⟩, s', r, hS', hr, hne hropen, hsame⟩
        · exact absurd rfl hnil
    · have happlies : Applies env row ↔ Clear env.update := by
        refine ⟨fun h => h.2.2, fun h => ⟨hget, ?_, h⟩⟩
        rcases hopen with hsubmitted | hworking
        · exact .inr ⟨hsubmitted, hstarted hsubmitted⟩
        · exact .inl hworking
      have hout' : out = writeResult { S with tasks := s' } env msg result row.task := by
        rw [hout, applyResult, hstart]
      rw [hout', happlies]
      rcases @writeResult_cases S env msg result row s' r hfresh hr hworking hsame houtcome with
        ⟨hnot, hnil, s'', hS'', hr''⟩ | hwritten
      · refine .inl ⟨hnot, hnil, s'', r, hS'', hr'', hne ?_, hsame⟩
        rw [hworking]
        rfl
      · exact .inr hwritten
  · -- The task has ended otherwise, and the result is refused.
    have hnot : row.task.status ≠ .submitted := fun h => by
      rw [show row.status = .submitted from h] at hclosed
      cases hclosed
    have hrefused : ¬Writes env.update row result.status := by
      rintro ⟨-, -, hvalid, -⟩
      exact canTransition_of_terminal hclosed hvalid
    rcases @updateStatus_cases S.tasks env.update row.id row hrow result.status result.error result.outputArtifacts with
      ⟨hwrites, -⟩ | ⟨-, hsame, hnone⟩
    · exact absurd hwrites hrefused
    · refine .inl ⟨fun h => ?_, ?_⟩
      · rcases h.2.1 with h | ⟨h, -⟩ <;> (rw [h] at hclosed; cases hclosed)
      · rw [hout]
        unfold applyResult startTask
        rw [if_neg hnot]
        dsimp only [writeResult]
        rw [show row.task.id = row.id from rfl]
        generalize S.tasks.updateStatus env.update row.id result.status result.error result.outputArtifacts = updating
          at hsame hnone ⊢
        obtain ⟨_ | _ | task, s'⟩ := updating
        · cases hsame
          exact ⟨by rintro ⟨⟩, _, row, rfl, hrow, hwaiting, .refl row⟩
        · cases hsame
          exact ⟨by rintro ⟨⟩, _, row, rfl, hrow, hwaiting, .refl row⟩
        · exact absurd rfl (hnone task)

end Deliver

/-! ## Any number of deliveries -/

section Deliveries

variable {S₀ : TaskServer} {msg : Message} {result : TaskResult} {row : TaskRow}

/-- A delivery of the message. -/
def deliver (msg : Message) (S : TaskServer) (env : ResultEnv) : Option (Except TaskRpcError Unit) × TaskServer :=
  handleTaskResult S env msg

abbrev Delivered := Turn TaskServer ResultEnv (Option (Except TaskRpcError Unit))

/-- Whenever a delivery writes the status, all that follows is done. -/
def Undisturbed (id : String) (past : List Delivered) : Prop :=
  ∀ t ∈ past, ∀ r, t.before.tasks.tasks.lookup id = some r → Applies t.input r → Complete t.before t.input r

/-- What is known after any number of deliveries to a task that did not have the status: no delivery has written it and
nothing but the tasks has changed, or one has and the rest is done if it was not disturbed. -/
def Progress (S₀ : TaskServer) (result : TaskResult) (row : TaskRow) (past : List Delivered) (S : TaskServer) : Prop :=
  ∃ r, S.tasks.tasks.lookup row.id = some r ∧ SameTask row r ∧
    ((r.status ≠ result.status ∧ (∃ s, S = { S₀ with tasks := s }) ∧ (∀ t ∈ past, t.output ≠ some (.ok ())) ∧
      ∀ t ∈ past, ∀ r, t.before.tasks.tasks.lookup row.id = some r → ¬Applies t.input r) ∨
    (r.status = result.status ∧ (Once row S₀ S ↔ Undisturbed row.id past)))

theorem not_applies_of_outcome {env : ResultEnv} (h : Outcome r.status) : ¬Applies env r := by
  rintro ⟨-, hopen, -⟩
  rcases hopen with hopen | ⟨hopen, -⟩ <;> (rw [hopen] at h; rcases h with h | h <;> cases h)

/-- A delivery that writes nothing disturbs nothing. -/
theorem undisturbed_concat {past : List Delivered} {t : Delivered} {id : String} :
    Undisturbed id (past ++ [t]) ↔ Undisturbed id past ∧
      ∀ r, t.before.tasks.tasks.lookup id = some r → Applies t.input r → Complete t.before t.input r := by
  unfold Undisturbed
  rw [List.forall_mem_append, List.forall_mem_singleton]

/-- What is complete for a task is so for the same task with another status. -/
theorem complete_congr {env : ResultEnv} (hid : r.id = row.id) (h : SameTask row r) :
    Complete S env r ↔ Complete S env row := by
  unfold Complete
  rw [hid, h.threadId]

theorem once_congr {S' : TaskServer} (hid : r.id = row.id) (h : SameTask row r) :
    Once r S S' ↔ Once row S S' := by
  unfold Once
  rw [hid, h.threadId]

variable (hpayload : msg.payload = .taskResult result) (hid : row.id = result.taskId)
  (hmatches : Matches msg row.task = true) (houtcome : Outcome result.status)
  (hfresh : ∀ r ∈ S₀.db.pending.rows, r.id ≤ S₀.db.pendingSeq)

include hpayload hid hmatches houtcome hfresh in
theorem Progress.step {past : List Delivered} (h : Progress S₀ result row past S) (env : ResultEnv) :
    Progress S₀ result row (past ++ [turn (deliver msg) S env]) (deliver msg S env).2 := by
  obtain ⟨r, hr, hsame, hprogress⟩ := h
  have hrid : r.id = row.id := id_of_lookup hr
  have hrmatches : Matches msg r.task = true := (matches_of_sameTask hsame hrid).trans hmatches
  rcases hprogress with ⟨hwaiting, ⟨s, rfl⟩, hnil, hnone⟩ | ⟨hsettled, honce⟩
  · rcases @handle_cases { S₀ with tasks := s } env msg result r hpayload (hrid.symm ▸ hr) (hrid.trans hid) hrmatches houtcome hfresh hwaiting with
      ⟨hnot, hout, s', r', hS', hr', hne, hsame'⟩ | ⟨happlies, ⟨r', hr', hstatus, hsame'⟩, honce⟩
    · refine ⟨r', ?_, hsame.trans hsame', .inl ⟨hne, ⟨s', hS'⟩, ?_, ?_⟩⟩
      · rw [deliver, hS']
        exact hrid ▸ hr'
      · exact List.forall_mem_append.mpr ⟨hnil, List.forall_mem_singleton.mpr hout⟩
      · refine List.forall_mem_append.mpr ⟨hnone, List.forall_mem_singleton.mpr fun r₁ hr₁ => ?_⟩
        obtain rfl := Option.some.inj (hr.symm.trans hr₁)
        exact hnot
    · refine ⟨r', hrid ▸ hr', hsame.trans hsame', .inr ⟨hstatus, ?_⟩⟩
      rw [once_congr hrid hsame, complete_congr hrid hsame] at honce
      refine Iff.trans honce (Iff.trans ?_ undisturbed_concat.symm)
      constructor
      · intro hcomplete
        refine ⟨fun t ht r₁ hr₁ h₁ => absurd h₁ (hnone t ht r₁ hr₁), fun r₁ hr₁ _ => ?_⟩
        obtain rfl := Option.some.inj (hr.symm.trans hr₁)
        exact (complete_congr hrid hsame).mpr hcomplete
      · rintro ⟨-, hlast⟩
        exact (complete_congr hrid hsame).mp (hlast r hr happlies)
  · have hstay : (deliver msg S env).2 = S :=
      handle_settled hpayload (hrid.symm ▸ hr) (hrid.trans hid) hrmatches houtcome hsettled
    rw [hstay]
    refine ⟨r, hr, hsame, .inr ⟨hsettled, honce.trans (Iff.trans ?_ undisturbed_concat.symm)⟩⟩
    refine (and_iff_left fun r₁ hr₁ h₁ => ?_).symm
    obtain rfl := Option.some.inj (hr.symm.trans hr₁)
    exact absurd h₁ (not_applies_of_outcome (hsettled ▸ houtcome))

include hpayload hid hmatches houtcome hfresh in
/-- **When the event and the entry come exactly once**: after any number of deliveries of a result, one of which has
returned no error, exactly one event has been saved and, if the task has a thread, exactly one entry has been
enqueued, if and only if the task did not have the status of the result at first and the delivery that
has written it was not disturbed. -/
theorem result_once_iff (hrow : S₀.tasks.tasks.lookup result.taskId = some row) (envs : List ResultEnv)
    (hnil : ∃ t ∈ turns (deliver msg) S₀ envs, t.output = some (.ok ())) :
    Once row S₀ (runs (deliver msg) S₀ envs) ↔
      row.status ≠ result.status ∧ Undisturbed result.taskId (turns (deliver msg) S₀ envs) := by
  rw [← hid] at hrow ⊢
  by_cases hsettled : row.status = result.status
  · have hstay : runs (deliver msg) S₀ envs = S₀ := by
      refine @turns_induction _ _ _ (deliver msg) _ (fun _ S => S = S₀) rfl (fun _ S env hS => ?_) envs
      rw [hS]
      exact handle_settled hpayload hrow hid hmatches houtcome hsettled
    rw [hstay]
    exact iff_of_false (fun h => Nat.ne_of_lt (Nat.lt_succ_self _) h.1) fun h => h.1 hsettled
  · have hprogress : Progress S₀ result row (turns (deliver msg) S₀ envs) (runs (deliver msg) S₀ envs) := by
      refine turns_induction (motive := Progress S₀ result row) ?_
        (fun past S env h => h.step hpayload hid hmatches houtcome hfresh env) envs
      refine ⟨row, hrow, .refl row, .inl ⟨hsettled, ⟨S₀.tasks, rfl⟩, ?_, ?_⟩⟩
      · exact fun t ht => absurd ht List.not_mem_nil
      · exact fun t ht => absurd ht List.not_mem_nil
    obtain ⟨t, ht, hok⟩ := hnil
    obtain ⟨r, -, -, ⟨-, -, hnot, -⟩ | ⟨-, honce⟩⟩ := hprogress
    · exact absurd hok (hnot t ht)
    · exact honce.trans ⟨fun h => ⟨hsettled, h⟩, fun h => h.2⟩

end Deliveries

/-! A result that is delivered twice. -/
namespace Told

/-- The status cannot be written. -/
def locked : ResultEnv := { smooth with update := { moment 4 with fails := fun _ => some "database is locked" } }

/-- The event cannot be saved. -/
def full : ResultEnv := { smooth with saveEvent := some "disk full" }

/-- The task of the client. -/
def errand : TaskRow := ({ Errand.order with threadID := "talk" } : NewTask).row 1

/-- What the deliveries return. -/
def returns (envs : List ResultEnv) : List (Option Bool) :=
  (turns (deliver (message .completed)) client envs).map fun t => t.output.map Except.isOk

end Told

open Told in
theorem result_once_second : returns [locked, smooth] = [some false, some true] ∧
    Once errand client (runs (deliver (message .completed)) client [locked, smooth]) := by
  refine ⟨by decide, (@result_once_iff client (message .completed) (reply .completed) errand rfl rfl (by decide) (.inl rfl)
    (fun r hr => absurd hr List.not_mem_nil) rfl [locked, smooth] ⟨_, List.mem_cons_of_mem _ List.mem_cons_self, rfl⟩).mpr
    ⟨by decide, ?_⟩⟩
  intro t ht r hr happlies
  rcases List.mem_cons.mp ht with rfl | ht
  · cases happlies.2.2.1
  · obtain rfl := List.mem_singleton.mp ht
    cases hr
    exact ⟨rfl, by decide, rfl, fun e he => absurd he List.not_mem_nil, fun _ => ⟨rfl, ⟨_, rfl⟩, rfl⟩⟩

open Told in
/-- The status has been written when the event cannot be saved: the second delivery returns no error, and there is
neither an event nor an entry. -/
theorem result_unrecorded : returns [full, smooth] = [some false, some true] ∧
    eventsOf (runs (deliver (message .completed)) client [full, smooth]) "errand" = [] ∧
    entriesOf (runs (deliver (message .completed)) client [full, smooth]) "talk" = [] :=
  ⟨by decide, rfl, rfl⟩

end MoltMesh.Rpc

import MoltMesh.Outbox.Flush
import MoltMesh.Rpc.Repeats
import MoltMesh.Rpc.Results

/-!
# What the initiator of a task is told

The daemon of the assignee has a row of its own for a task that another daemon has delegated.  The
initiator learns of the outcome by a `TASK_RESULT` in the outbox, which `CompleteTask` and `FailTask` enqueue
when the lease has ended.  A task has more ways to end than these, and the row and the message are
written one after the other.

`TaskDaemon` is the task store with the outbox: the operations of the one and the events of the other, and
between them the two calls, which may be stopped before the message is enqueued.
-/

namespace MoltMesh.Rpc

open MoltMesh.Lib MoltMesh.Tasks MoltMesh.Tasks.Store

/-! ## The daemon of the assignee -/

/-- What a worker reports at the end of its lease. -/
inductive Report
  /-- By `CompleteTask`. -/
  | completed (outputArtifacts : List Artifact)
  /-- By `FailTask`. -/
  | failed (error : String)

namespace Report

def status : Report → TaskStatus
  | completed _ => .completed
  | failed _ => .failed

def error : Report → String
  | completed _ => ""
  | failed error => error

def outputs : Report → List Artifact
  | completed outputArtifacts => outputArtifacts
  | failed _ => []

theorem outcome (report : Report) : Outcome report.status := by
  cases report with
  | completed outputArtifacts => exact .inl rfl
  | failed error => exact .inr rfl

end Report

/-- The task store and the outbox of a daemon. -/
structure TaskDaemon where
  did : String
  tasks : Tasks.Store
  outbox : Outbox.Machine

namespace TaskDaemon

inductive Event
  /-- An operation of the task store. -/
  | op (i : Input)
  /-- A lease ends and the initiator is notified, unless the process stops before. -/
  | finish (env : LeaseEnv) (worker taskId token : String) (report : Report) (stops : Bool)
  /-- A message is enqueued, the outbox goes on, or the process stops or starts. -/
  | outbox (e : Outbox.Event)

variable (D : TaskDaemon)

/-- There is a process. -/
def running : Bool := match D.outbox.process with
  | .down => false
  | _ => true

/-- The operation of the task store at the end of a lease. -/
def ending (env : LeaseEnv) (worker taskId token : String) (report : Report) : Input :=
  ⟨env.store, .finishLease taskId worker token report.status report.error report.outputs⟩

/-- `CompleteTask` or `FailTask` of a worker. -/
def finish (env : LeaseEnv) (worker taskId token : String) (report : Report) (stops : Bool) : TaskDaemon :=
  match D.tasks.finishLease env.store taskId worker token report.status report.error report.outputs with
  | (some (.ok task), tasks) =>
    if stops then ⟨D.did, tasks, { D.outbox with process := .down }⟩
    else ⟨D.did, tasks, { D.outbox with db := notified D.did env.enqueue worker task report.error D.outbox.db }⟩
  | (_, tasks) => { D with tasks }

/-- One event; nothing but the outbox can be started when there is no process. -/
def step : Event → Unit × TaskDaemon
  | .op i => ((), if D.running then { D with tasks := (Tasks.step D.tasks i).2 } else D)
  | .finish env worker taskId token report stops =>
    ((), if D.running then D.finish env worker taskId token report stops else D)
  | .outbox e => ((), { D with outbox := (D.outbox.step e).2 })

end TaskDaemon

/-! ## Messages in the outbox -/

/-- The outbox holds a `TASK_RESULT` for the task and its initiator that carries the status. -/
def Holds (db : Outbox.Db) (id initiator : String) (status : TaskStatus) : Prop :=
  ∃ r ∈ db.rows, ∃ msg res, r.payload = some msg ∧ msg.kind = .taskResult ∧ msg.taskId = id ∧ msg.toDid = initiator ∧
    msg.payload = .taskResult res ∧ res.taskId = id ∧ res.status = status

section Messages

variable {db : Outbox.Db} {id initiator : String} {status : TaskStatus}

theorem Holds.insert (h : Holds db id initiator status) (r : Outbox.OutboxRow) :
    Holds (db.insertOrIgnore r) id initiator status := by
  obtain ⟨r', hr', hrest⟩ := h
  exact ⟨r', Table.mem_insertOrIgnore.mpr (.inl hr'), hrest⟩

theorem Holds.notified (h : Holds db id initiator status) (did : String) (env : EnqueueEnv) (fromDID : String)
    (task : Task) (errMsg : String) : Holds (notified did env fromDID task errMsg db) id initiator status := by
  unfold Rpc.notified Outbox.enqueue
  split
  · exact h
  split
  · exact h
  split
  · exact h
  · exact h.insert _

/-- An event of the outbox leaves the messages where they are. -/
theorem Holds.outbox {M : Outbox.Machine} (h : Holds M.db id initiator status) (e : Outbox.Event) :
    Holds (M.step e).2.db id initiator status := by
  obtain ⟨r, hr, msg, res, hpayload, hrest⟩ := h
  obtain ⟨r', hr', hstep⟩ := Outbox.Machine.step_row (Table.lookup_eq_some.mpr ⟨hr, rfl⟩) e
  exact ⟨r', (Table.lookup_eq_some.mp hr').1, msg, res, hstep.payload.trans hpayload, hrest⟩

/-- What the notification adds: the message, if it can be enqueued under a new id. -/
theorem holds_notified {did : String} {env : EnqueueEnv} {fromDID : String} {task : Task} {errMsg : String}
    (hid : task.id = id) (hinitiator : task.initiator = initiator) (hstatus : task.status = status) (hdid : initiator ≠ did) :
    Holds (notified did env fromDID task errMsg db) id initiator status ↔ Holds db id initiator status ∨
      initiator ≠ "" ∧ env.marshal = none ∧ env.fails = none ∧ ∀ r ∈ db.rows, r.id ≠ env.uuid := by
  refine ⟨fun h => ?_, ?_⟩
  · unfold notified Outbox.enqueue at h
    by_cases hblank : initiator = ""
    · rw [if_pos (.inl (hinitiator.trans hblank))] at h
      exact .inl h
    rw [if_neg (by rw [hinitiator, not_or]; exact ⟨hblank, hdid⟩)] at h
    cases hmarshal : env.marshal with
    | some err =>
      rw [hmarshal] at h
      exact .inl h
    | none =>
    cases hfails : env.fails with
    | some err =>
      rw [hmarshal, hfails] at h
      exact .inl h
    | none =>
    rw [hmarshal, hfails] at h
    obtain ⟨r, hr, hrest⟩ := h
    rcases Table.mem_insertOrIgnore.mp hr with hr | ⟨-, hfree⟩
    · exact .inl ⟨r, hr, hrest⟩
    · exact .inr ⟨hblank, rfl, rfl, fun r' hr' heq => hfree (List.mem_map.mpr ⟨r', hr', heq⟩)⟩
  · rintro (h | ⟨hblank, hmarshal, hfails, hfree⟩)
    · exact h.notified did env fromDID task errMsg
    · unfold notified Outbox.enqueue
      rw [if_neg (by rw [hinitiator, not_or]; exact ⟨hblank, hdid⟩), hmarshal, hfails]
      refine ⟨_, Table.mem_insertOrIgnore.mpr (.inr ⟨rfl, fun hmem => ?_⟩), resultMessage env fromDID task errMsg, _, rfl, rfl,
        hid, hinitiator, rfl, hid, hstatus⟩
      obtain ⟨r', hr', heq⟩ := List.mem_map.mp hmem
      exact hfree r' hr' heq

end Messages

/-! ## How a task ends -/

/-- `FinishLease` gets as far as its write. -/
def Finishes (env : Tasks.Env) (row : TaskRow) (worker token : String) (status : TaskStatus) : Prop :=
  Outcome status ∧ env.fails .write = none ∧ holdsLease row.id worker token env.now row = true

/-- A claim finds that the task is to be given up. -/
def GivenUp (now : Int) (row : TaskRow) : Prop :=
  pastDeadline now row = true ∧ (row.status = .submitted ∨ row.status = .working) ∨
    pastDeadline now row = false ∧ spent row = true ∧
      (row.status = .submitted ∨ row.status = .working ∧ row.leaseExpiresAt.any (fun x => x ≤ now) = true)

/-- The lease has expired, and there is no time or no attempt left. -/
def Abandoned (now : Int) (row : TaskRow) : Prop :=
  row.status = .working ∧ row.leaseExpiresAt.any (fun x => 0 < x ∧ x ≤ now) = true ∧
    (pastDeadline now row = true ∨ spent row = true)

/-- An operation brings a row to an outcome. -/
def Ends (env : Tasks.Env) (row : TaskRow) (status : TaskStatus) : Op → Prop
  | .updateStatus id status' _ _ => id = row.id ∧ status' = status ∧ Writes env row status
  | .claim id worker _ => id = row.id ∧ status = .failed ∧ env.fails .read = none ∧ env.fails .write = none ∧
    row.assignee = worker ∧ GivenUp env.now row
  | .finishLease id worker token status' _ _ => id = row.id ∧ status' = status ∧ Finishes env row worker token status
  | .requeueExpired => status = .failed ∧ env.fails .read = none ∧ env.fails .write = none ∧ Abandoned env.now row
  | _ => False

section Ends

variable {s : Tasks.Store} {env : Tasks.Env} {id : String} {row row' : TaskRow} {status : TaskStatus}

/-- `FinishLease` either writes the outcome and reads the task again, or it returns no task and writes nothing. -/
theorem finishLease_cases (hrow : s.tasks.lookup id = some row) (worker token : String) (status : TaskStatus) (errMsg : String)
    (outputs : List Artifact) :
    (Finishes env row worker token status ∧
      ∃ s', s'.tasks.lookup id = some (noLease (setStatus env.now status errMsg outputs row)) ∧
      s.finishLease env id worker token status errMsg outputs = (s'.get env id, s')) ∨
    (¬Finishes env row worker token status ∧ (s.finishLease env id worker token status errMsg outputs).2 = s ∧
      ∀ task, (s.finishLease env id worker token status errMsg outputs).1 ≠ some (.ok task)) := by
  have hid := id_of_lookup hrow
  unfold finishLease Finishes Outcome
  split
  · rename_i hnot
    exact .inr ⟨fun h => not_or.mpr hnot h.1, rfl, by rintro task ⟨⟩⟩
  rename_i hstatus
  cases hwrite : env.fails .write with
  | some err => exact .inr ⟨fun h => (by cases h.2.1), rfl, by rintro task ⟨⟩⟩
  | none =>
  dsimp only
  split
  · rename_i hempty
    rw [select_holdsLease hrow] at hempty
    refine .inr ⟨fun h => ?_, rfl, by rintro task ⟨⟩⟩
    rw [hid, hempty] at h
    cases h.2.2
  · rename_i hsome
    rw [select_holdsLease hrow, Bool.not_eq_false] at hsome
    refine .inl ⟨⟨by tauto, rfl, hid.symm ▸ hsome⟩, _, ?_, rfl⟩
    exact update_own hrow hsome

/-- Nothing ends where the row stays as it is. -/
theorem ends_iff_of_same {p : Prop} (hopen : ¬Outcome row.status) (hstatus : Outcome status) (hsame : row' = row) (hnot : ¬p) :
    row'.status = status ↔ p := by
  refine ⟨fun h => absurd ?_ hopen, fun h => absurd h hnot⟩
  rw [← hsame, h]
  exact hstatus

/-- A call that asks for a status and gets as far as its write, or leaves the row as it is. -/
theorem ends_iff_of_written {p : TaskStatus → Prop} {status' : TaskStatus} {s' : Tasks.Store}
    (hrow : s.tasks.lookup id = some row) (hopen : ¬Outcome row.status) (hstatus : Outcome status)
    (h : (p status' ∧ ∃ r, s'.tasks.lookup id = some r ∧ r.status = status') ∨ (¬p status' ∧ s' = s))
    (hrow' : s'.tasks.lookup id = some row') : row'.status = status ↔ id = row.id ∧ status' = status ∧ p status := by
  rcases h with ⟨hp, r, hr, rfl⟩ | ⟨hnot, rfl⟩
  · obtain rfl := Option.some.inj (hr.symm.trans hrow')
    exact ⟨fun h => ⟨(id_of_lookup hrow).symm, h, h ▸ hp⟩, fun h => h.2.1⟩
  · refine ends_iff_of_same hopen hstatus (Option.some.inj (hrow'.symm.trans hrow)) fun h => hnot ?_
    rw [h.2.1]
    exact h.2.2

theorem updateStatus_ends (hrow : s.tasks.lookup id = some row) (hopen : ¬Outcome row.status) (hstatus : Outcome status)
    {status' : TaskStatus} {errMsg : String} {outputs : List Artifact}
    (hrow' : (s.updateStatus env id status' errMsg outputs).2.tasks.lookup id = some row') :
    row'.status = status ↔ Ends env row status (.updateStatus id status' errMsg outputs) := by
  refine ends_iff_of_written hrow hopen hstatus ?_ hrow'
  rcases @updateStatus_cases s env id row hrow status' errMsg outputs with ⟨hwrites, s', hlookup, heq⟩ | ⟨hnot, heq, -⟩
  · rw [heq]
    exact .inl ⟨hwrites, _, hlookup, rfl⟩
  · exact .inr ⟨hnot, heq⟩

theorem finishLease_ends (hrow : s.tasks.lookup id = some row) (hopen : ¬Outcome row.status) (hstatus : Outcome status)
    {worker token : String} {status' : TaskStatus} {errMsg : String} {outputs : List Artifact}
    (hrow' : (s.finishLease env id worker token status' errMsg outputs).2.tasks.lookup id = some row') :
    row'.status = status ↔ Ends env row status (.finishLease id worker token status' errMsg outputs) := by
  refine @ends_iff_of_written s id row row' status (Finishes env row worker token) _ _ hrow hopen hstatus ?_ hrow'
  rcases @finishLease_cases s env id row hrow worker token status' errMsg outputs with
    ⟨hfinishes, s', hlookup, heq⟩ | ⟨hnot, heq, -⟩
  · rw [heq]
    exact .inl ⟨hfinishes, _, hlookup, rfl⟩
  · exact .inr ⟨hnot, heq⟩

theorem requeueExpired_ends (hrow : s.tasks.lookup id = some row) (hopen : ¬Outcome row.status) (hstatus : Outcome status)
    (hrow' : (s.requeueExpired env).2.tasks.lookup id = some row') :
    row'.status = status ↔ Ends env row status .requeueExpired := by
  unfold requeueExpired write at hrow'
  cases hread : env.fails .read with
  | some err =>
    rw [hread] at hrow'
    refine ends_iff_of_same hopen hstatus (Option.some.inj (hrow'.symm.trans hrow)) fun h => ?_
    rw [h.2.1] at hread
    cases hread
  | none =>
  cases hwrite : env.fails .write with
  | some err =>
    rw [hread, hwrite] at hrow'
    refine ends_iff_of_same hopen hstatus (Option.some.inj (hrow'.symm.trans hrow)) fun h => ?_
    rw [h.2.2.1] at hwrite
    cases hwrite
  | none =>
  rw [hread, hwrite] at hrow'
  dsimp only at hrow'
  rcases lookup_foldl_expired hrow env.now with ⟨hexpired, hlookup⟩ | ⟨hexpired, hlookup⟩
  · obtain rfl := Option.some.inj (hrow'.symm.trans hlookup)
    simp only [expired, Table.mem_select, decide_eq_true_eq] at hexpired
    unfold requeuedRow
    split
    · rename_i hover
      exact ⟨fun h => ⟨h.symm, hread, hwrite, hexpired.2.1, hexpired.2.2, hover⟩, fun h => h.1.symm⟩
    · rename_i hover
      refine ⟨fun h => ?_, fun h => absurd h.2.2.2.2.2 hover⟩
      rcases hstatus with rfl | rfl <;> cases h
  · refine ends_iff_of_same hopen hstatus (Option.some.inj (hrow'.symm.trans hlookup)) fun h => hexpired ?_
    have hmem := (Table.lookup_eq_some.mp hrow).1
    exact Table.mem_select.mpr ⟨hmem, decide_eq_true ⟨h.2.2.2.1, h.2.2.2.2.1⟩⟩

/-- A lease that has expired is not a live one. -/
theorem not_live_of_expired {now : Int} {expiresAt : Option Int} (h : expiresAt.any (fun x => x ≤ now) = true) :
    ¬expiresAt.any (fun x => now < x) = true := by
  cases expiresAt with
  | none => cases h
  | some x =>
    simp only [Option.any_some, decide_eq_true_eq] at h ⊢
    omega

theorem claim_ends (hrow : s.tasks.lookup id = some row) (hopen : ¬Outcome row.status) (hstatus : Outcome status)
    {worker : String} {lease : Int} (hrow' : (s.claim env id worker lease).2.tasks.lookup id = some row') :
    row'.status = status ↔ Ends env row status (.claim id worker lease) := by
  have hid := id_of_lookup hrow
  have hown := decide_eq_true hid
  -- Where nothing is written it is enough to say what is missing.
  have hkept {p : Prop} (hlookup : s.tasks.lookup id = some row') (hnot : ¬p) : row'.status = status ↔ p :=
    ends_iff_of_same hopen hstatus (Option.some.inj (hlookup.symm.trans hrow)) hnot
  unfold claim at hrow'
  rw [hrow] at hrow'
  unfold Ends GivenUp
  cases hread : env.fails .read with
  | some err =>
    rw [hread] at hrow'
    exact hkept hrow' (by simp)
  | none =>
  rw [hread] at hrow'
  dsimp only at hrow'
  split_ifs at hrow' with hassignee hdeadline hlive hconflict hspent
  · exact hkept hrow' (by tauto)
  · cases hwrite : env.fails .write with
    | some err =>
      rw [hwrite] at hrow'
      exact hkept hrow' (by simp)
    | none =>
    rw [hwrite] at hrow'
    dsimp only at hrow'
    by_cases hlisted : row.status = .submitted ∨ row.status = .working
    · have hlookup := hrow'.symm.trans (update_own hrow (decide_eq_true ⟨hid, hlisted⟩))
      obtain rfl := Option.some.inj hlookup
      exact ⟨fun h => ⟨hid.symm, h.symm, rfl, rfl, not_not.mp hassignee, .inl ⟨hdeadline, hlisted⟩⟩, fun h => h.2.1.symm⟩
    · have hlookup := hrow'.symm.trans (update_other hrow (decide_eq_false fun hand => hlisted hand.2))
      refine ends_iff_of_same hopen hstatus (Option.some.inj hlookup) fun h => ?_
      rcases h.2.2.2.2.2 with hlate | ⟨hearly, -⟩
      · exact hlisted hlate.2
      · rw [hdeadline] at hearly
        cases hearly
  · -- A lease that is returned again has not expired.
    have hnot : ¬GivenUp env.now row := by
      rintro (hlate | ⟨-, -, hsubmitted | ⟨-, hexpired⟩⟩)
      · exact hdeadline hlate.1
      · rw [hlive.1] at hsubmitted
        cases hsubmitted
      · exact not_live_of_expired hexpired hlive.2.2
    split at hrow' <;> exact hkept hrow' fun h => hnot h.2.2.2.2.2
  · exact hkept hrow' fun h => by
      rcases h.2.2.2.2.2 with hlate | ⟨-, -, hfree⟩
      · exact hdeadline hlate.1
      · tauto
  · cases hwrite : env.fails .write with
    | some err =>
      rw [hwrite] at hrow'
      exact hkept hrow' (by simp)
    | none =>
    rw [hwrite] at hrow'
    obtain rfl := Option.some.inj (hrow'.symm.trans (update_own hrow hown))
    have hfree : row.status = .submitted ∨ row.status = .working ∧ row.leaseExpiresAt.any (fun x => x ≤ env.now) = true := by
      tauto
    exact ⟨fun h => ⟨hid.symm, h.symm, rfl, rfl, not_not.mp hassignee, .inr ⟨Bool.not_eq_true _ ▸ hdeadline, hspent, hfree⟩⟩,
      fun h => h.2.1.symm⟩
  · have hnot : ¬GivenUp env.now row := by
      rintro (hlate | ⟨-, hover, -⟩)
      · exact hdeadline hlate.1
      · exact hspent hover
    split at hrow'
    · exact hkept hrow' fun h => hnot h.2.2.2.2.2
    split at hrow'
    · exact hkept hrow' fun h => hnot h.2.2.2.2.2
    · obtain rfl := Option.some.inj (hrow'.symm.trans (update_own hrow hown))
      refine ⟨fun h => ?_, fun h => absurd h.2.2.2.2.2 hnot⟩
      rcases hstatus with rfl | rfl <;> cases h

theorem Ends.about {op : Op} {id' : String} (h : Ends env row status op) (habout : op.about = some id') : id' = row.id := by
  cases op <;> cases habout
  case updateStatus | claim | finishLease => exact h.1
  case setMaxAttempts | setTimeout | renewLease => cases h

/-- **How a task comes to an outcome**: a status that is one is written exactly by what `Ends` lists. -/
theorem ends_iff (hrow : s.tasks.lookup id = some row) (hopen : ¬Outcome row.status) (hstatus : Outcome status) (i : Input)
    (hrow' : (Tasks.step s i).2.tasks.lookup id = some row') : row'.status = status ↔ Ends i.env row status i.op := by
  obtain ⟨row₁, hrow₁, hstep⟩ := step_row hrow i
  obtain rfl := Option.some.inj (hrow₁.symm.trans hrow')
  have hkept (hsame : row₁.status = row.status) : row₁.status = status ↔ False := by
    rw [hsame, iff_false]
    rintro rfl
    exact hopen hstatus
  by_cases hother : ∃ id', i.op.about = some id' ∧ id' ≠ id
  · obtain ⟨id', habout, hne⟩ := hother
    rw [lookup_step_of_ne habout hne] at hrow'
    refine ends_iff_of_same hopen hstatus (Option.some.inj (hrow'.symm.trans hrow)) fun h => hne ?_
    exact (h.about habout).trans (id_of_lookup hrow)
  have habout (id' : String) (h : i.op.about = some id') : id' = id := by
    by_contra hne
    exact hother ⟨id', h, hne⟩
  generalize (Tasks.step s i).1 = out at hstep
  obtain ⟨env, op⟩ := i
  cases op with
  | updateStatus id' status' errMsg outputs =>
    obtain rfl := habout id' rfl
    exact updateStatus_ends hrow hopen hstatus hrow'
  | claim id' worker lease =>
    obtain rfl := habout id' rfl
    exact claim_ends hrow hopen hstatus hrow'
  | finishLease id' worker token status' errMsg outputs =>
    obtain rfl := habout id' rfl
    exact finishLease_ends hrow hopen hstatus hrow'
  | requeueExpired => exact requeueExpired_ends hrow hopen hstatus hrow'
  | createIdempotent t => cases hstep; exact hkept rfl
  | createFromRemote t => cases hstep; exact hkept rfl
  | setMaxAttempts id' max => cases hstep <;> exact hkept rfl
  | setTimeout id' timeout => cases hstep <;> exact hkept rfl
  | renewLease id' worker token lease => cases hstep <;> exact hkept rfl
  | insertTask t => cases hstep; exact hkept rfl
  | insertDelivery taskId => cases hstep; exact hkept rfl

theorem Finishes.working {worker token : String} (h : Finishes env row worker token status) : row.status = .working :=
  (holdsLease_eq_true.mp h.2.2).2.1

/-- Only a task that is open can end. -/
theorem Ends.not_outcome {op : Op} (h : Ends env row status op) : ¬Outcome row.status := by
  intro houtcome
  have hclosed : row.status ≠ .submitted ∧ row.status ≠ .working := by
    rcases houtcome with heq | heq <;> rw [heq] <;> decide
  cases op with
  | updateStatus id' status' errMsg outputs => exact canTransition_of_terminal houtcome.terminal h.2.2.2.2.1
  | claim id' worker lease =>
    rcases h.2.2.2.2.2 with ⟨-, hopen⟩ | ⟨-, -, hfree⟩
    · exact hopen.elim hclosed.1 hclosed.2
    · exact hfree.elim hclosed.1 fun hworking => hclosed.2 hworking.1
  | finishLease id' worker token status' errMsg outputs => exact hclosed.2 h.2.2.working
  | requeueExpired => exact hclosed.2 h.2.2.2.1
  | _ => exact h

/-- A task that was not there is as it has been created. -/
theorem create_row {t : NewTask} (hid : t.id ≠ "") (hnew : s.tasks.lookup t.id = none)
    (hrow : (s.create env t).2.tasks.lookup t.id = some row) : row = t.row env.now := by
  have habsent : s.tasks.lookup t.id ≠ some row := by
    rw [hnew]
    rintro ⟨⟩
  unfold create at hrow
  rw [if_neg hid] at hrow
  split at hrow
  · exact absurd hrow habsent
  split at hrow
  · exact absurd hrow habsent
  dsimp only at hrow
  split at hrow
  · split at hrow
    · exact absurd hrow habsent
    · split at hrow <;> exact absurd hrow habsent
  · rename_i s₁ hinsert
    have hlookup := (lookup_insertTask_self hinsert).2
    split at hrow
    · exact Option.some.inj (hrow.symm.trans hlookup)
    · rename_i s₂ hdelivery
      rw [insertDelivery_tasks hdelivery] at hrow
      exact Option.some.inj (hrow.symm.trans hlookup)

theorem createFromRemote_row {t : NewTask} (hnew : s.tasks.lookup t.id = none)
    (hrow : (s.createFromRemote env t).2.tasks.lookup t.id = some row) :
    row.initiator = t.initiator ∧ row.status = .submitted := by
  have habsent : s.tasks.lookup t.id ≠ some row := by
    rw [hnew]
    rintro ⟨⟩
  unfold createFromRemote at hrow
  split at hrow
  · exact absurd hrow habsent
  rename_i hid
  split at hrow
  · exact absurd hrow habsent
  · exact absurd hrow habsent
  have hcreate := @create_row s env row { t with key := "" } hid hnew
  unfold createDispatched at hrow
  split at hrow
  · exact absurd hrow habsent
  generalize s.create env { t with key := "" } = result at hrow hcreate
  have hresult : result.2.tasks.lookup t.id = some row := by
    rcases result with ⟨_ | _ | task, s'⟩
    · exact hrow
    · exact hrow
    · dsimp only at hrow
      split at hrow <;> exact hrow
  rw [hcreate hresult]
  exact ⟨rfl, rfl⟩

end Ends

/-! ## What the outbox holds in a run -/

namespace TaskDaemon

section Informed

variable (id initiator : String)

/-- If the task has an outcome, the outbox holds a message with it. -/
def Informed (D : TaskDaemon) : Prop :=
  ∀ row, D.tasks.tasks.lookup id = some row → Outcome row.status → Holds D.outbox.db id initiator row.status

/-- Nothing keeps the initiator from being notified: the process goes on, the task is read back, and the message can be
enqueued under an id that is new. -/
def Notifies (D : TaskDaemon) (env : LeaseEnv) (stops : Bool) : Prop :=
  stops = false ∧ env.store.fails .get = none ∧ initiator ≠ "" ∧ env.enqueue.marshal = none ∧
    env.enqueue.fails = none ∧ ∀ r ∈ D.outbox.db.rows, r.id ≠ env.enqueue.uuid

/-- An event that ends the task is the end of a lease after which the initiator is notified, or the message is
in the outbox already. -/
def Reported (D : TaskDaemon) : Event → Prop
  | .op i => D.running = true → ∀ row status, D.tasks.tasks.lookup id = some row → Outcome status →
    Ends i.env row status i.op → Holds D.outbox.db id initiator status
  | .finish env worker taskId token report stops => D.running = true → ∀ row, D.tasks.tasks.lookup id = some row →
    taskId = id → Finishes env.store row worker token report.status →
      Holds D.outbox.db id initiator report.status ∨ Notifies initiator D env stops
  | .outbox _ => True

/-- The task is one of an initiator on another daemon. -/
structure Remote (did : String) (D : TaskDaemon) : Prop where
  did_eq : D.did = did
  task : ∃ row, D.tasks.tasks.lookup id = some row ∧ row.initiator = initiator

end Informed

section Steps

variable {D : TaskDaemon} {id initiator did : String} {row : TaskRow} {env : LeaseEnv} {worker taskId token : String}
  {report : Report} {stops : Bool}

theorem finish_tasks : (D.finish env worker taskId token report stops).tasks =
    (Tasks.step D.tasks (ending env worker taskId token report)).2 := by
  unfold finish ending Tasks.step
  simp only [Prod.map_snd]
  generalize D.tasks.finishLease env.store taskId worker token report.status report.error report.outputs = result
  rcases result with ⟨_ | _ | task, tasks⟩
  · rfl
  · rfl
  · cases stops <;> rfl

theorem finish_did : (D.finish env worker taskId token report stops).did = D.did := by
  unfold finish
  generalize D.tasks.finishLease env.store taskId worker token report.status report.error report.outputs = result
  rcases result with ⟨_ | _ | task, tasks⟩
  · rfl
  · rfl
  · cases stops <;> rfl

theorem holds_finish_of_holds {status : TaskStatus} (h : Holds D.outbox.db id initiator status) :
    Holds (D.finish env worker taskId token report stops).outbox.db id initiator status := by
  unfold finish
  generalize D.tasks.finishLease env.store taskId worker token report.status report.error report.outputs = result
  rcases result with ⟨_ | _ | task, tasks⟩
  · exact h
  · exact h
  · cases stops
    · exact h.notified ..
    · exact h

/-- The end of a lease adds the message if nothing keeps the initiator from being notified. -/
theorem holds_finish_iff (hrow : D.tasks.tasks.lookup id = some row) (hinitiator : row.initiator = initiator)
    (hdid : initiator ≠ D.did) (hfinishes : Finishes env.store row worker token report.status) :
    Holds (D.finish env worker id token report stops).outbox.db id initiator report.status ↔
      Holds D.outbox.db id initiator report.status ∨ Notifies initiator D env stops := by
  rcases @finishLease_cases D.tasks env.store id row hrow worker token report.status report.error report.outputs with
    ⟨-, s', hrow', heq⟩ | ⟨hnot, -⟩
  swap
  · exact absurd hfinishes hnot
  have hid := id_of_lookup hrow
  unfold finish Notifies
  rw [heq]
  unfold Store.get
  rw [hrow']
  cases hget : env.store.fails .get with
  | some err => simp
  | none =>
  dsimp only
  have hknown : knownStatuses (noLease (setStatus env.store.now report.status report.error report.outputs row)).status = true :=
    known_of_terminal report.outcome.terminal
  have hstatus : (noLease (setStatus env.store.now report.status report.error report.outputs row)).task.status =
      report.status := rfl
  rw [if_pos hknown]
  cases stops with
  | true => simp
  | false =>
    refine (holds_notified hid hinitiator hstatus hdid).trans ?_
    simp

theorem remote_step (h : Remote id initiator did D) (e : Event) : Remote id initiator did (D.step e).2 := by
  obtain ⟨rfl, row, hrow, hinitiator⟩ := h
  have hnext (i : Input) : ∃ row', (Tasks.step D.tasks i).2.tasks.lookup id = some row' ∧ row'.initiator = initiator := by
    obtain ⟨row', hrow', hstep⟩ := step_row hrow i
    exact ⟨row', hrow', hstep.sameTask.initiator.trans hinitiator⟩
  cases e with
  | op i =>
    unfold step
    dsimp only
    split
    · exact ⟨rfl, hnext i⟩
    · exact ⟨rfl, row, hrow, hinitiator⟩
  | finish env worker taskId token report stops =>
    unfold step
    dsimp only
    split
    · exact ⟨finish_did, finish_tasks ▸ hnext _⟩
    · exact ⟨rfl, row, hrow, hinitiator⟩
  | outbox e => exact ⟨rfl, row, hrow, hinitiator⟩

theorem remote_moments (h : Remote id initiator did D) (es : List Event) :
    ∀ m ∈ moments step D es, Remote id initiator did m :=
  invariant_of_turns (fun _ e hm (_ : True) => remote_step hm e) h fun _ _ => trivial

/-- The step: where the task has an outcome already the message stays, otherwise it has to be added. -/
theorem informed_step (h : Remote id initiator did D) (hdid : initiator ≠ did) (hinformed : Informed id initiator D)
    (e : Event) : Informed id initiator (D.step e).2 ↔ Reported id initiator D e := by
  obtain ⟨rfl, row, hrow, hinitiator⟩ := h
  cases e with
  | outbox e => exact iff_of_true (fun row' hrow' houtcome => (hinformed row' hrow' houtcome).outbox e) trivial
  | op i =>
    unfold step Reported
    cases hrunning : D.running with
    | false => exact iff_of_true hinformed (by rintro ⟨⟩)
    | true =>
    dsimp only
    rw [if_pos rfl]
    obtain ⟨row', hrow', hstep⟩ := step_row hrow i
    by_cases houtcome : Outcome row.status
    · refine iff_of_true (fun r hr _ => ?_) fun _ r status hr _ hends => ?_
      · obtain rfl := Option.some.inj (hrow'.symm.trans hr)
        rw [(hstep.sameOutcome houtcome.terminal).status]
        exact hinformed row hrow houtcome
      · obtain rfl := Option.some.inj (hrow.symm.trans hr)
        exact absurd houtcome hends.not_outcome
    · constructor
      · intro hafter _ r status hr hstatus hends
        obtain rfl := Option.some.inj (hrow.symm.trans hr)
        obtain rfl := (ends_iff hrow houtcome hstatus i hrow').mpr hends
        exact hafter row' hrow' hstatus
      · intro hreported r hr hstatus
        obtain rfl := Option.some.inj (hrow'.symm.trans hr)
        exact hreported rfl row _ hrow hstatus ((ends_iff hrow houtcome hstatus i hrow').mp rfl)
  | finish env worker taskId token report stops =>
    unfold step Reported
    cases hrunning : D.running with
    | false => exact iff_of_true hinformed (by rintro ⟨⟩)
    | true =>
    dsimp only
    rw [if_pos rfl]
    obtain ⟨row', hrow', hstep⟩ := step_row hrow (ending env worker taskId token report)
    have hafter : (D.finish env worker taskId token report stops).tasks.tasks.lookup id = some row' := finish_tasks ▸ hrow'
    by_cases houtcome : Outcome row.status
    · refine iff_of_true (fun r hr _ => ?_) fun _ r hr _ hfinishes => ?_
      · obtain rfl := Option.some.inj (hafter.symm.trans hr)
        rw [(hstep.sameOutcome houtcome.terminal).status]
        exact holds_finish_of_holds (hinformed row hrow houtcome)
      · obtain rfl := Option.some.inj (hrow.symm.trans hr)
        rw [hfinishes.working] at houtcome
        exact absurd houtcome (by decide)
    · constructor
      · rintro hinformed' - r hr rfl hfinishes
        obtain rfl := Option.some.inj (hrow.symm.trans hr)
        have hstatus := (ends_iff hrow houtcome report.outcome _ hrow').mpr
          ⟨(id_of_lookup hrow).symm, rfl, hfinishes⟩
        rw [← holds_finish_iff hrow hinitiator hdid hfinishes, ← hstatus]
        exact hinformed' row' hafter (hstatus ▸ report.outcome)
      · intro hreported r hr hstatus
        obtain rfl := Option.some.inj (hafter.symm.trans hr)
        obtain ⟨htask, heq, hfinishes⟩ := (ends_iff hrow houtcome hstatus _ hrow').mp rfl
        obtain rfl := htask.trans (id_of_lookup hrow)
        rw [← heq] at hfinishes ⊢
        exact (holds_finish_iff hrow hinitiator hdid hfinishes).mpr (hreported rfl row hrow rfl hfinishes)

end Steps

/-- **What the initiator is told**: a task that `CreateFromRemote` has created for an initiator on another daemon has a
message with its outcome in the outbox, at every moment of a run at which it has one, exactly if every event of the run
that ends the task notifies the initiator or finds the message there. -/
theorem outcome_told_iff {D : TaskDaemon} {env : Tasks.Env} {t : NewTask} (hnew : D.tasks.tasks.lookup t.id = none)
    (hcreated : (D.tasks.createFromRemote env t).2.tasks.lookup t.id ≠ none) (hdid : t.initiator ≠ D.did) (es : List Event) :
    (∀ m ∈ moments step { D with tasks := (D.tasks.createFromRemote env t).2 } es, Informed t.id t.initiator m) ↔
      ∀ e ∈ turns step { D with tasks := (D.tasks.createFromRemote env t).2 } es, Reported t.id t.initiator e.before e.input := by
  obtain ⟨row, hrow⟩ := Option.ne_none_iff_exists'.mp hcreated
  obtain ⟨hinitiator, hstatus⟩ := createFromRemote_row hnew hrow
  have hremote : Remote t.id t.initiator D.did { D with tasks := (D.tasks.createFromRemote env t).2 } :=
    ⟨rfl, row, hrow, hinitiator⟩
  have hinformed : Informed t.id t.initiator { D with tasks := (D.tasks.createFromRemote env t).2 } := by
    intro r hr houtcome
    obtain rfl := Option.some.inj (hrow.symm.trans hr)
    rw [hstatus] at houtcome
    exact absurd houtcome (by decide)
  have hstep (m : TaskDaemon) (e : Event) (hm : Remote t.id t.initiator D.did m ∧ Informed t.id t.initiator m) :
      Remote t.id t.initiator D.did (step m e).2 ∧ Informed t.id t.initiator (step m e).2 ↔ Reported t.id t.initiator m e :=
    ⟨fun h => (informed_step hm.1 hdid hm.2 e).mp h.2,
      fun h => ⟨remote_step hm.1 e, (informed_step hm.1 hdid hm.2 e).mpr h⟩⟩
  rw [← invariant_iff hstep ⟨hremote, hinformed⟩]
  exact ⟨fun h m hm => ⟨remote_moments hremote es m hm, h m hm⟩, fun h m hm => (h m hm).2⟩

end TaskDaemon

/-! A task is delegated, and the daemon of the assignee has another DID. -/
namespace Delegated

/-- The daemon, before the task has been delegated. -/
def host : TaskDaemon := ⟨"did:host", .empty, ⟨.empty, .idle⟩⟩

/-- A call about a lease during which nothing fails. -/
def smooth (millis : Int) : LeaseEnv :=
  ⟨⟨millis, fun _ => none⟩, Errand.moment millis "", ⟨none, "m", millis, millis, millis, none⟩⟩

/-- A claim for a second. -/
def claim (millis : Int) : TaskDaemon.Event := .op ⟨Errand.moment millis "k", .claim "errand" "did:worker" 1000000000⟩

/-- The worker completes the task at its first attempt. -/
def done (stops : Bool) : List TaskDaemon.Event := [claim 2, .finish (smooth 3) "did:worker" "errand" "k" (.completed []) stops]

/-- Three leases expire. -/
def lapsed : List TaskDaemon.Event :=
  [claim 2, .op ⟨Errand.moment 2000 "", .requeueExpired⟩, claim 3000, .op ⟨Errand.moment 5000 "", .requeueExpired⟩,
    claim 6000, .op ⟨Errand.moment 8000 "", .requeueExpired⟩]

/-- The daemon after a run that follows the creation of the task. -/
def after (es : List TaskDaemon.Event) : TaskDaemon :=
  runs TaskDaemon.step { host with tasks := (host.tasks.createFromRemote (Errand.moment 1 "") Errand.order).2 } es

end Delegated

open Delegated TaskDaemon in
theorem outcome_told_done : (moments TaskDaemon.step
    { host with tasks := (host.tasks.createFromRemote (Errand.moment 1 "") Errand.order).2 } (done false)).Forall
      (Informed "errand" "did:client") := by
  refine List.forall_iff_forall_mem.mpr ((@outcome_told_iff host (Errand.moment 1 "") Errand.order rfl (by rintro ⟨⟩)
    (by decide) (done false)).mpr (List.forall_mem_cons.mpr ⟨?_, List.forall_mem_singleton.mpr ?_⟩))
  · rintro - row status hrow - ⟨-, -, -, -, -, hgiven⟩
    obtain rfl := Option.some.inj hrow
    rcases hgiven with ⟨⟨⟩, -⟩ | ⟨-, ⟨⟩, -⟩
  · rintro - row hrow - -
    exact .inr ⟨rfl, rfl, by decide, rfl, rfl, fun r hr => absurd hr List.not_mem_nil⟩

open Delegated TaskDaemon in
/-- The task fails when its third lease has expired, or the process stops when the lease has been completed: there is an
outcome, and no message. -/
theorem outcome_untold : (∃ row, (after lapsed).tasks.tasks.lookup "errand" = some row ∧ row.status = .failed ∧
      ¬Holds (after lapsed).outbox.db "errand" "did:client" .failed) ∧
    ∃ row, (after (done true)).tasks.tasks.lookup "errand" = some row ∧ row.status = .completed ∧
      ¬Holds (after (done true)).outbox.db "errand" "did:client" .completed := by
  refine ⟨⟨_, rfl, rfl, ?_⟩, ⟨_, rfl, rfl, ?_⟩⟩ <;>
    (rintro ⟨r, hr, -⟩; exact absurd hr List.not_mem_nil)

end MoltMesh.Rpc

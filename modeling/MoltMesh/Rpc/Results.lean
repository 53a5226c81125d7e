import MoltMesh.Rpc.Tasks
import MoltMesh.Tasks.Rows

/-!
# Results of tasks

The daemon of a task's initiator is told the outcome by a `TASK_RESULT`, which `handleTaskResult`
applies: the task is started if it has not been, the status of the result is written, an event is
saved and an entry is appended to the thread of the task.  Each of these is a transaction of its
own.  `applied_whole_iff` says when all of it or nothing is done, for any result.
-/

namespace MoltMesh.Rpc

open MoltMesh.Lib MoltMesh.Tasks MoltMesh.Tasks.Store

/-- The outcomes a result may name. -/
def Outcome (status : TaskStatus) : Prop := status = .completed ∨ status = .failed

instance (status : TaskStatus) : Decidable (Outcome status) := inferInstanceAs (Decidable (_ ∨ _))

theorem Outcome.terminal {status : TaskStatus} (h : Outcome status) : terminal status = true := by
  rcases h with rfl | rfl <;> rfl

section Statuses

variable {source target : TaskStatus}

/-- From `WORKING` a task can be brought to a terminal status. -/
theorem canTransition_working : canTransition .working target =
    if knownStatuses target then some (terminal target) else none := by
  cases target <;> rfl

theorem canTransition_terminal (h : terminal source = true) : canTransition source target =
    if knownStatuses target then some false else none := by
  simp only [terminal, decide_eq_true_eq] at h
  rcases h with rfl | rfl | rfl <;> cases target <;> rfl

theorem known_of_terminal (h : terminal source = true) : knownStatuses source = true := by
  simp only [terminal, decide_eq_true_eq] at h
  rcases h with rfl | rfl | rfl <;> rfl

/-- The known statuses are `SUBMITTED`, `WORKING` and the terminal ones. -/
theorem known_cases (h : knownStatuses source = true) :
    source = .submitted ∨ source = .working ∨ terminal source = true := by
  cases source with
  | submitted => exact .inl rfl
  | working => exact .inr (.inl rfl)
  | completed | failed | cancelled => exact .inr (.inr rfl)
  | unspecified | other => cases h

end Statuses

/-! ## A delivery during which no call of the task store fails -/

/-- No call of the task store fails. -/
structure Smooth (env : ResultEnv) : Prop where
  get : ∀ call, env.get.fails call = none
  start : ∀ call, env.start.fails call = none
  update : ∀ call, env.update.fails call = none
  saveEvent : env.saveEvent = none

section Store

variable {s : Tasks.Store} {env : Tasks.Env} {id : String} {row : TaskRow}

theorem get_smooth (h : env.fails .get = none) (hrow : s.tasks.lookup id = some row) :
    s.get env id = if knownStatuses row.status then some (.ok row.task) else none := by
  rw [Store.get, h, hrow]

theorem updateStatus_smooth (h : ∀ call, env.fails call = none) (hrow : s.tasks.lookup id = some row)
    (status : TaskStatus) (errMsg : String) (outputs : List Artifact) :
    ∃ s', s'.tasks.lookup id = some (setStatus env.now status errMsg outputs row) ∧
      s.updateStatus env id status errMsg outputs = match canTransition row.status status with
        | none => (none, s)
        | some false => (some (.error (.invalidTransition row.status status)), s)
        | some true => (some (.ok (setStatus env.now status errMsg outputs row).task), s') := by
  have hrow' := @update_own (fun r => r.id = id) (setStatus env.now status errMsg outputs) _ _ _ (fun _ => rfl) hrow
    (decide_eq_true (id_of_lookup hrow))
  refine ⟨_, hrow', ?_⟩
  simp only [updateStatus, h, hrow]
  rcases hvalid : canTransition row.status status with _ | _ | _
  · rfl
  · rfl
  · have hknown : knownStatuses status = true := by
      unfold canTransition at hvalid
      split at hvalid
      · exact (‹_› : _ ∧ _).2
      · cases hvalid
    dsimp only
    rw [get_smooth (h .get) hrow']
    exact congrArg₂ Prod.mk (if_pos hknown) rfl

end Store

section Apply

variable {S : TaskServer} {env : ResultEnv} {msg : Message} {result : TaskResult} {row : TaskRow}

/-- An entry can be appended to the thread of the task, if there is one. -/
def Appends (hasThreads : Bool) (env : ResultEnv) (threadId : String) : Prop :=
  threadId = "" ∨ hasThreads = false ∨ (∃ data, env.marshal = .ok data) ∧
    env.thread.fails .enqueueEntry = none ∧ env.thread.fails .activate = none ∧ env.thread.fails .tell = none

theorem appendResult_ok (threadId : String) :
    (appendResult S env msg threadId).2.tasks = S.tasks ∧
      ((appendResult S env msg threadId).1 = .ok () ↔ Appends S.hasThreads env threadId) := by
  unfold appendResult Appends managerAppendEntry
  by_cases hthread : threadId ≠ "" ∧ S.hasThreads = true
  · rw [if_pos hthread]
    have hother : ¬(threadId = "" ∨ S.hasThreads = false) := by
      rintro (h | h)
      · exact hthread.1 h
      · rw [h] at hthread
        cases hthread.2
    rw [← or_assoc, or_iff_right hother]
    cases hmarshal : env.marshal with
    | error err => exact ⟨rfl, iff_of_false (by rintro ⟨⟩) (by rintro ⟨⟨_, ⟨⟩⟩, -⟩)⟩
    | ok data =>
    cases henqueue : env.thread.fails .enqueueEntry with
    | some err => exact ⟨rfl, iff_of_false (by rintro ⟨⟩) (by rintro ⟨-, ⟨⟩, -⟩)⟩
    | none =>
    cases hactivate : env.thread.fails .activate with
    | some err => exact ⟨rfl, iff_of_false (by rintro ⟨⟩) (by rintro ⟨-, -, ⟨⟩, -⟩)⟩
    | none =>
    cases htell : env.thread.fails .tell with
    | some err => exact ⟨rfl, iff_of_false (by rintro ⟨⟩) (by rintro ⟨-, -, -, ⟨⟩⟩)⟩
    | none => exact ⟨rfl, iff_of_true rfl ⟨⟨data, rfl⟩, rfl, rfl, rfl⟩⟩
  · rw [if_neg hthread]
    refine ⟨rfl, iff_of_true rfl ?_⟩
    rw [← or_assoc]
    refine .inl ?_
    by_cases hid : threadId = ""
    · exact .inl hid
    · exact .inr (Bool.eq_false_iff.mpr fun h => hthread ⟨hid, h⟩)

theorem recordResult_ok (task updated : Task) :
    (recordResult S env msg result task updated).2.tasks = S.tasks ∧
      ((recordResult S env msg result task updated).1 = .ok () ↔
        task.id ≠ "" ∧ env.saveEvent = none ∧ Appends S.hasThreads env task.threadId) := by
  have htask : (resultEvent env task.id updated.status result).taskId = task.id := rfl
  unfold recordResult saveEvent
  rw [htask]
  by_cases hid : task.id = ""
  · rw [if_pos hid]
    exact ⟨rfl, iff_of_false (by rintro ⟨⟩) fun h => h.1 hid⟩
  rw [if_neg hid]
  cases hsave : env.saveEvent with
  | some err => exact ⟨rfl, iff_of_false (by rintro ⟨⟩) (by rintro ⟨-, ⟨⟩, -⟩)⟩
  | none =>
    obtain ⟨htasks, hok⟩ := @appendResult_ok
      { S with events := S.events.insertOrIgnore (resultEvent env task.id updated.status result) } env msg task.threadId
    exact ⟨htasks, hok.trans ⟨fun h => ⟨hid, rfl, h⟩, fun h => h.2.2⟩⟩

/-- A result for a task that is open. -/
theorem applyResult_open (hsmooth : Smooth env) (hrow : S.tasks.tasks.lookup row.id = some row)
    (hopen : row.status = .submitted ∨ row.status = .working) (msg : Message) (result : TaskResult) :
    ∃ row₁ s₁ s₂, s₁.tasks.lookup row.id = some row₁ ∧ row₁.status = .working ∧ (row.status = .working → row₁ = row) ∧
      s₂.tasks.lookup row.id =
        some (setStatus env.update.now result.status result.error result.outputArtifacts row₁) ∧
      applyResult S env msg result row.task =
        if knownStatuses result.status then
          if Tasks.terminal result.status then
            (recordResult { S with tasks := s₂ } env msg result row.task
              (setStatus env.update.now result.status result.error result.outputArtifacts row₁).task).map some fun S => S
          else (some (.error (.store "" (.invalidTransition .working result.status))), { S with tasks := s₁ })
        else (none, { S with tasks := s₁ }) := by
  obtain ⟨s₁, row₁, hrow₁, hworking, hsame, hstart⟩ : ∃ s₁ row₁, s₁.tasks.lookup row.id = some row₁ ∧
      row₁.status = .working ∧ (row.status = .working → row₁ = row) ∧
      startTask S env row.task = (some (.ok ()), { S with tasks := s₁ }) := by
    unfold startTask
    rcases hopen with hstatus | hstatus
    · obtain ⟨s₁, hrow₁, heq⟩ := updateStatus_smooth hsmooth.start hrow .working "" []
      refine ⟨s₁, _, hrow₁, rfl, fun h => ?_, ?_⟩
      · rw [hstatus] at h
        cases h
      · have hstart : row.task.status = .submitted := hstatus
        have hid : row.task.id = row.id := rfl
        rw [if_pos hstart, startWork_eq, hid, heq, hstatus]
        rfl
    · have hnot : row.task.status ≠ .submitted := fun h => by
        cases hstatus.symm.trans h
      exact ⟨S.tasks, row, hrow, hstatus, fun _ => rfl, if_neg hnot⟩
  obtain ⟨s₂, hrow₂, heq⟩ := updateStatus_smooth hsmooth.update hrow₁ result.status result.error result.outputArtifacts
  refine ⟨row₁, s₁, s₂, hrow₁, hworking, hsame, hrow₂, ?_⟩
  have hid : row.task.id = row.id := rfl
  rw [hworking, canTransition_working] at heq
  unfold applyResult
  rw [hstart]
  dsimp only [writeResult]
  rw [hid, heq]
  cases knownStatuses result.status with
  | false => rfl
  | true => cases Tasks.terminal result.status <;> rfl

/-- A result for a task that has ended. -/
theorem applyResult_closed (hsmooth : Smooth env) (hrow : S.tasks.tasks.lookup row.id = some row)
    (hclosed : Tasks.terminal row.status = true) (msg : Message) (result : TaskResult) :
    applyResult S env msg result row.task =
      if knownStatuses result.status then
        (some (.error (.store "" (.invalidTransition row.status result.status))), S)
      else (none, S) := by
  have hnot : row.task.status ≠ .submitted := by
    intro h
    have hsubmitted : row.status = .submitted := h
    rw [hsubmitted] at hclosed
    cases hclosed
  obtain ⟨s₂, -, heq⟩ := updateStatus_smooth hsmooth.update hrow result.status result.error result.outputArtifacts
  have hid : row.task.id = row.id := rfl
  rw [canTransition_terminal hclosed] at heq
  unfold applyResult startTask
  rw [if_neg hnot]
  dsimp only [writeResult]
  rw [hid, heq]
  cases knownStatuses result.status <;> rfl

/-- All of a result is applied, or nothing. -/
def Whole (S : TaskServer) (result : TaskResult) (out : Option (Except TaskRpcError Unit) × TaskServer) : Prop :=
  (out.1 = some (.ok ()) ∧ ∃ row', out.2.tasks.tasks.lookup result.taskId = some row' ∧ Outcome row'.status ∧
    row'.status = result.status ∧
    ∀ row, S.tasks.tasks.lookup result.taskId = some row → row.status = result.status → row' = row) ∨
  (∃ err, out.1 = some (.error err)) ∧
    out.2.tasks.tasks.lookup result.taskId = S.tasks.tasks.lookup result.taskId

/-- A result fits the task it is for. -/
def Fits (hasThreads : Bool) (env : ResultEnv) (result : TaskResult) (row : TaskRow) : Prop :=
  Outcome result.status ∧ row.status = result.status ∨
  Outcome result.status ∧ Tasks.terminal row.status = false ∧ row.id ≠ "" ∧ Appends hasThreads env row.threadId ∨
  row.status = .working ∧ (result.status = .submitted ∨ result.status = .working) ∨
  Tasks.terminal row.status = true ∧ row.status ≠ result.status ∧ knownStatuses result.status = true

theorem not_whole_none {S' : TaskServer} : ¬Whole S result (none, S') := by
  rintro (⟨⟨⟩, -⟩ | ⟨⟨_, ⟨⟩⟩, -⟩)

theorem whole_error {S' : TaskServer} {err : TaskRpcError} : Whole S result (some (.error err), S') ↔
    S'.tasks.tasks.lookup result.taskId = S.tasks.tasks.lookup result.taskId := by
  constructor
  · rintro (⟨⟨⟩, -⟩ | ⟨-, hsame⟩)
    exact hsame
  · exact fun hsame => .inr ⟨⟨err, rfl⟩, hsame⟩

/-- A result that fits has a known status. -/
theorem Fits.known {hasThreads : Bool} (h : Fits hasThreads env result row) : knownStatuses result.status = true := by
  rcases h with ⟨h, -⟩ | ⟨h, -⟩ | ⟨-, h | h⟩ | ⟨-, -, h⟩
  · exact known_of_terminal h.terminal
  · exact known_of_terminal h.terminal
  · rw [h]
    rfl
  · rw [h]
    rfl
  · exact h

/-- The result is for a task that has its status already. -/
theorem whole_settled (hrow : S.tasks.tasks.lookup result.taskId = some row) (hsame : row.status = result.status)
    (hclosed : Tasks.terminal row.status = true) {hasThreads : Bool} :
    Whole S result (some (.ok ()), S) ↔ Fits hasThreads env result row := by
  constructor
  · rintro (⟨-, row', hrow', houtcome, hstatus, -⟩ | ⟨⟨_, ⟨⟩⟩, -⟩)
    exact .inl ⟨hstatus ▸ houtcome, hsame⟩
  · intro hfits
    have houtcome : Outcome result.status := by
      rcases hfits with ⟨h, -⟩ | ⟨h, -⟩ | ⟨h, -⟩ | ⟨-, h, -⟩
      · exact h
      · exact h
      · rw [h] at hclosed
        cases hclosed
      · exact absurd hsame h
    refine .inl ⟨rfl, row, hrow, hsame ▸ houtcome, hsame, fun r hr _ => ?_⟩
    exact Option.some.inj (hrow.symm.trans hr)

/-- The result is for a task that is open. -/
theorem whole_open (hsmooth : Smooth env) (hrow : S.tasks.tasks.lookup result.taskId = some row)
    (hopen : row.status = .submitted ∨ row.status = .working) :
    Whole S result (applyResult S env msg result row.task) ↔ Fits S.hasThreads env result row := by
  have hid : row.id = result.taskId := id_of_lookup hrow
  have hnot : Tasks.terminal row.status = false := by rcases hopen with h | h <;> rw [h] <;> rfl
  obtain ⟨row₁, s₁, s₂, hrow₁, hworking, hkept, hrow₂, heq⟩ :=
    applyResult_open hsmooth (hid.symm ▸ hrow) hopen msg result
  rw [hid] at hrow₁ hrow₂
  rw [heq]
  cases hknown : knownStatuses result.status with
  | false =>
    refine iff_of_false not_whole_none fun h => ?_
    rw [h.known] at hknown
    cases hknown
  | true =>
  rw [if_pos rfl]
  cases hend : Tasks.terminal result.status with
  | false =>
    -- The task has been started, and the result is refused.
    rw [if_neg Bool.false_ne_true, whole_error]
    have hnotOutcome : ¬Outcome result.status := fun h => by
      rw [h.terminal] at hend
      cases hend
    constructor
    · intro hsame
      have hback : row₁ = row := Option.some.inj (hrow₁.symm.trans (hsame.trans hrow))
      refine .inr (.inr (.inl ⟨hback ▸ hworking, ?_⟩))
      rcases known_cases hknown with h | h | h
      · exact .inl h
      · exact .inr h
      · rw [h] at hend
        cases hend
    · rintro (⟨h, -⟩ | ⟨h, -⟩ | ⟨h, -⟩ | ⟨h, -⟩)
      · exact absurd h hnotOutcome
      · exact absurd h hnotOutcome
      · rw [hkept h] at hrow₁
        exact hrow₁.trans hrow.symm
      · rw [hnot] at h
        cases h
  | true =>
    rw [if_pos rfl]
    have hne : row.status ≠ result.status := fun h => by
      rw [h, hend] at hnot
      cases hnot
    obtain ⟨htasks, hok⟩ := @recordResult_ok { S with tasks := s₂ } env msg result row.task
      (setStatus env.update.now result.status result.error result.outputArtifacts row₁).task
    generalize recordResult { S with tasks := s₂ } env msg result row.task
      (setStatus env.update.now result.status result.error result.outputArtifacts row₁).task = out at htasks hok ⊢
    obtain ⟨outcome, S'⟩ := out
    dsimp only at htasks
    have hrow' : S'.tasks.tasks.lookup result.taskId =
        some (setStatus env.update.now result.status result.error result.outputArtifacts row₁) := by rw [htasks, hrow₂]
    constructor
    · rintro (⟨hnil, row', hlookup, houtcome, hstatus, -⟩ | ⟨-, hsame⟩)
      · obtain ⟨hblank, -, happends⟩ := hok.mp (Option.some.inj hnil)
        exact .inr (.inl ⟨hstatus ▸ houtcome, hnot, hblank, happends⟩)
      · have hback := Option.some.inj (hrow'.symm.trans (hsame.trans hrow))
        exact absurd (congrArg TaskRow.status hback).symm hne
    · rintro (⟨-, h⟩ | ⟨houtcome, -, hblank, happends⟩ | ⟨-, h | h⟩ | ⟨h, -⟩)
      · exact absurd h hne
      · refine .inl ⟨congrArg some (hok.mpr ⟨hblank, hsmooth.saveEvent, happends⟩), _, hrow', houtcome, rfl, ?_⟩
        intro r hr hstatus
        obtain rfl := Option.some.inj (hrow.symm.trans hr)
        exact absurd hstatus hne
      · rw [h] at hend
        cases hend
      · rw [h] at hend
        cases hend
      · rw [hnot] at h
        cases h

/-- The result is for a task that has ended otherwise. -/
theorem whole_closed (hsmooth : Smooth env) (hrow : S.tasks.tasks.lookup result.taskId = some row)
    (hclosed : Tasks.terminal row.status = true) (hne : row.status ≠ result.status) :
    Whole S result (applyResult S env msg result row.task) ↔ Fits S.hasThreads env result row := by
  have hid : row.id = result.taskId := id_of_lookup hrow
  rw [applyResult_closed hsmooth (hid.symm ▸ hrow) hclosed]
  cases hknown : knownStatuses result.status with
  | false =>
    refine iff_of_false not_whole_none fun h => ?_
    rw [h.known] at hknown
    cases hknown
  | true => exact iff_of_true (whole_error.mpr rfl) (.inr (.inr (.inr ⟨hclosed, hne, hknown⟩)))

/-- **When a result is applied as a whole**: if no call of the task store fails, `handleTaskResult` either brings the
task to the outcome that the result names and returns no error, or returns an error and leaves the
task as it is, exactly if the result is not from the assignee or fits the task. -/
theorem applied_whole_iff (hpayload : msg.payload = .taskResult result) (hsmooth : Smooth env) :
    Whole S result (handleTaskResult S env msg) ↔ ∀ row, S.tasks.tasks.lookup result.taskId = some row →
      knownStatuses row.status = true ∧ (Matches msg row.task = true → Fits S.hasThreads env result row) := by
  unfold handleTaskResult
  rw [hpayload]
  dsimp only
  cases hrow : S.tasks.tasks.lookup result.taskId with
  | none =>
    have hget : S.tasks.get env.get result.taskId = some (.error .noRows) := by
      rw [Store.get, hsmooth.get .get, hrow]
    rw [hget]
    exact iff_of_true (whole_error.mpr rfl) (by rintro row ⟨⟩)
  | some row =>
    have hall : (∀ r, some row = some r → knownStatuses r.status = true ∧
        (Matches msg r.task = true → Fits S.hasThreads env result r)) ↔
        knownStatuses row.status = true ∧ (Matches msg row.task = true → Fits S.hasThreads env result row) :=
      ⟨fun h => h row rfl, fun h r hr => Option.some.inj hr ▸ h⟩
    rw [hall, get_smooth (hsmooth.get .get) hrow]
    cases hknown : knownStatuses row.status with
    | false => exact iff_of_false not_whole_none fun h => Bool.false_ne_true h.1
    | true =>
    rw [if_pos rfl]
    dsimp only
    cases hmatches : Matches msg row.task with
    | false => exact iff_of_true (whole_error.mpr rfl) ⟨rfl, fun h => absurd h Bool.false_ne_true⟩
    | true =>
    rw [if_neg fun h => h rfl]
    have hfits : (true = true ∧ (true = true → Fits S.hasThreads env result row)) ↔ Fits S.hasThreads env result row :=
      ⟨fun h => h.2 rfl, fun h => ⟨rfl, fun _ => h⟩⟩
    rw [hfits]
    by_cases hsettled : row.task.status = result.status ∧ Tasks.terminal row.task.status = true
    · rw [if_pos hsettled]
      exact whole_settled hrow hsettled.1 hsettled.2
    · rw [if_neg hsettled]
      rcases known_cases hknown with h | h | h
      · exact whole_open hsmooth hrow (.inl h)
      · exact whole_open hsmooth hrow (.inr h)
      · exact whole_closed hsmooth hrow h fun hsame => hsettled ⟨hsame, h⟩

end Apply

/-! A client has delegated a task and is told its result. -/
namespace Told

/-- The store at a moment at which nothing fails. -/
def moment (millis : Int) : Tasks.Env := ⟨millis * 1000000, "", "", fun _ => none⟩

/-- The client's daemon, with the task. -/
def client : TaskServer :=
  { did := "did:client", sessions := ⟨.empty⟩, db := .empty, outbox := [], events := .empty, queue := .empty,
    hasThreads := true, tasks := (step .empty ⟨moment 1, .createFromRemote { Errand.order with threadID := "talk" }⟩).2 }

/-- A delivery during which nothing fails. -/
def smooth : ResultEnv :=
  ⟨moment 2, moment 3, moment 4, 5000000, 5, none, .ok [1], 6, ⟨7, fun _ => none⟩⟩

/-- A result with a status. -/
def reply (status : TaskStatus) : TaskResult := ⟨"errand", status, [], "", []⟩

def message (status : TaskStatus) : Message :=
  ⟨"m", "did:worker", "did:client", "talk", "errand", .taskResult, .taskResult (reply status), 2⟩

/-- What a delivery returns, and the status it leaves. -/
def told (status : TaskStatus) : Option Bool × Option TaskStatus :=
  let out := handleTaskResult client smooth (message status)
  (out.1.map Except.isOk, (out.2.tasks.tasks.lookup "errand").map TaskRow.status)

theorem smooth_smooth : Smooth smooth := ⟨fun _ => rfl, fun _ => rfl, fun _ => rfl, rfl⟩

end Told

open Told in
theorem applied_whole_reply : Whole client (reply .completed) (handleTaskResult client smooth (message .completed)) := by
  refine (applied_whole_iff rfl smooth_smooth).mpr ?_
  rintro row ⟨⟩
  refine ⟨rfl, fun _ => .inr (.inl ⟨.inl rfl, rfl, by decide, .inr (.inr ⟨⟨_, rfl⟩, rfl, rfl, rfl⟩)⟩)⟩

open Told in
/-- The task is `SUBMITTED`.  A result that names `WORKING` returns an error and leaves it `WORKING`, one that names
`CANCELLED` cancels it, and one with an unknown status panics when the task has been started. -/
theorem applied_in_part : told .working = (some false, some .working) ∧ told .cancelled = (some true, some .cancelled) ∧
    told (.other 9) = (none, some .working) ∧
    ¬Whole client (reply .working) (handleTaskResult client smooth (message .working)) := by
  refine ⟨by decide, by decide, by decide, ?_⟩
  rintro (⟨⟨⟩, -⟩ | ⟨-, ⟨⟩⟩)

end MoltMesh.Rpc

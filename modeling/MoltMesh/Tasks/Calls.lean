import MoltMesh.Tasks.Rows

/-!
# Creating tasks, statement by statement

A call that creates a task looks for one that is there, inserts the row of the task, inserts its
delivery and reads the task again, each by a statement of its own.  `CreateCall.advance` executes the
next of them, and `run_createIdempotent` and `run_createFromRemote` say that all of them together are
the calls of `Tasks.Store`.

`System` is the store with any number of such calls under way, the operations that are a single
transaction between their statements, and the end of the process at any moment.  That there is one
task for an idempotency key (`one_task_per_key`) is an invariant of it.
-/

namespace MoltMesh.Tasks

open MoltMesh.Lib MoltMesh.Tasks.Store

variable {result : Option (Except TaskError Task)}

/-! ## Calls -/

/-- The calls that create a task. -/
inductive Route
  | createIdempotent
  | createFromRemote
deriving DecidableEq

/-- What a call that creates a task does next. -/
inductive Stage
  /-- `CreateIdempotent` looks for the key. -/
  | findKey
  /-- `CreateFromRemote` looks for the id. -/
  | findId
  /-- `create` inserts the task. -/
  | insert
  /-- The task could not be inserted, and `create` looks for the key. -/
  | resolve (err : TaskError)
  /-- `create` inserts the delivery. -/
  | deliver (id : String)
  /-- `CreateIdempotent` reads the task that has the key. -/
  | fetch (id : String)
  /-- `create` reads the task. -/
  | read (id : String)
  | returned (result : Option (Except TaskError Task))
  /-- The process has stopped. -/
  | stopped

/-- A call that creates a task, with the arguments it passes on. -/
structure CreateCall where
  route : Route
  task : NewTask
  stage : Stage

namespace CreateCall

/-- A call before its first statement. -/
def start : Route → NewTask → CreateCall
  | .createIdempotent, t => ⟨.createIdempotent, { t with id := "" }, if t.key = "" then .insert else .findKey⟩
  | .createFromRemote, t => ⟨.createFromRemote, { t with key := "" },
    if t.id = "" then .returned (some (.error (.invalidTask "task id is required"))) else .findId⟩

/-- The end of `createDispatched`. -/
def dispatched (env : Env) : Option (Except TaskError Task) → Option (Except TaskError Task)
  | some (.ok task) => match env.fails .taskExecutor with
    | some err => some (.error (.db err))
    | none => some (.ok task)
  | result => result

/-- The task `create` inserts. -/
def chosen (c : CreateCall) (env : Env) : NewTask :=
  { c.task with id := if c.task.id = "" then env.uuid else c.task.id }

variable (s : Store) (env : Env)

/-- The next statement of a call. -/
def advance (c : CreateCall) : Stage × Store :=
  match c.stage with
  | .findKey => match s.lookupKey env c.task.initiator c.task.key with
    | .ok id => (.fetch id, s)
    | .error .noRows => (.insert, s)
    | .error err => (.returned (some (.error err)), s)
  | .findId => match s.get env c.task.id with
    | none => (.returned none, s)
    | some (.ok existing) => (.returned (some (.ok existing)), s)
    | some (.error _) => (.insert, s)
  | .insert => match env.fails .dispatch with
    | some err => (.returned (some (.error (.db err))), s)
    | none =>
      if c.task.skill = "" then (.returned (some (.error (.invalidTask "skill is required"))), s)
      else if c.task.initiator ≠ "" ∧ c.task.initiator = c.task.assignee then
        (.returned (some (.error (.invalidTask "cannot delegate a task to its own initiator"))), s)
      else match s.insertTask env (c.chosen env) with
        | .error err => if c.task.key = "" then (.returned (some (.error err)), s) else (.resolve err, s)
        | .ok s => (.deliver (c.chosen env).id, s)
  | .resolve err => match s.lookupKey env c.task.initiator c.task.key with
    | .error _ => (.returned (some (.error err)), s)
    | .ok existing => (.read existing, s)
  | .deliver id => match s.insertDelivery env id with
    | .error err => (.returned (some (.error err)), s)
    | .ok s => (.read id, s)
  | .fetch id => (.returned (s.get env id), s)
  | .read id => (.returned (dispatched env (s.get env id)), s)
  | .returned result => (.returned result, s)
  | .stopped => (.stopped, s)

/-- Statements of a call one after another, each with what the environment decides during it. -/
def run : CreateCall → Store → List Env → CreateCall × Store
  | c, s, [] => (c, s)
  | c, s, env :: envs => run { c with stage := (c.advance s env).1 } (c.advance s env).2 envs

/-! ## All statements of a call -/

section Run

variable {s env} {c : CreateCall} {envs : List Env}

theorem run_cons (stage : Stage) (s' : Store) (h : c.advance s env = (stage, s')) :
    c.run s (env :: envs) = { c with stage }.run s' envs := by
  rw [run, h]

theorem run_returned (h : c.stage = .returned result) : c.run s envs = (c, s) := by
  obtain ⟨route, t, stage⟩ := c
  cases h
  induction envs with
  | nil => rfl
  | cons env envs ih => exact ih

theorem run_append (envs' : List Env) :
    c.run s (envs ++ envs') = (c.run s envs).1.run (c.run s envs).2 envs' := by
  induction envs generalizing c s with
  | nil => rfl
  | cons env envs ih => exact ih

/-- A call that returns with the next statement. -/
theorem run_last {s' : Store} (h : c.advance s env = (.returned result, s')) :
    c.run s (env :: envs) = ({ c with stage := .returned result }, s') := by
  rw [run_cons _ _ h]
  exact run_returned rfl

theorem createDispatched_eq (t : NewTask) (h : env.fails .dispatch = none) :
    s.createDispatched env t = (dispatched env (s.create env t).1, (s.create env t).2) := by
  unfold createDispatched
  rw [h]
  rcases s.create env t with ⟨_ | _ | task, s'⟩
  · rfl
  · rfl
  · simp only [dispatched]
    cases env.fails .taskExecutor <;> rfl

/-- `create` after its checks. -/
theorem create_eq (hskill : c.task.skill ≠ "") (hself : ¬(c.task.initiator ≠ "" ∧ c.task.initiator = c.task.assignee)) :
    s.create env c.task = match s.insertTask env (c.chosen env) with
      | .error err =>
        if c.task.key = "" then (some (.error err), s)
        else match s.lookupKey env c.task.initiator c.task.key with
          | .error _ => (some (.error err), s)
          | .ok existing => (s.get env existing, s)
      | .ok s => match s.insertDelivery env (c.chosen env).id with
        | .error err => (some (.error err), s)
        | .ok s => (s.get env (c.chosen env).id, s) := by
  rw [create, if_neg hskill, if_neg hself]
  rfl

/-- The statements of `createDispatched`. -/
theorem run_insert (h : c.stage = .insert) : c.run s (List.replicate 3 env) =
    ({ c with stage := .returned (s.createDispatched env c.task).1 }, (s.createDispatched env c.task).2) := by
  cases hdispatch : env.fails .dispatch with
  | some err =>
    simp only [createDispatched, hdispatch]
    exact run_last (by simp only [advance, h, hdispatch])
  | none =>
    rw [createDispatched_eq c.task hdispatch]
    by_cases hskill : c.task.skill = ""
    · simp only [create, if_pos hskill]
      exact run_last (by simp only [advance, h, hdispatch, if_pos hskill, dispatched])
    by_cases hself : c.task.initiator ≠ "" ∧ c.task.initiator = c.task.assignee
    · simp only [create, if_neg hskill, if_pos hself]
      exact run_last (by simp only [advance, h, hdispatch, if_neg hskill, if_pos hself, dispatched])
    rw [create_eq hskill hself]
    have hadvance : c.advance s env = match s.insertTask env (c.chosen env) with
        | .error err => if c.task.key = "" then (.returned (some (.error err)), s) else (.resolve err, s)
        | .ok s => (.deliver (c.chosen env).id, s) := by
      simp only [advance, h, hdispatch, if_neg hskill, if_neg hself]
    cases hinsert : s.insertTask env (c.chosen env) with
    | error err =>
      rw [hinsert] at hadvance
      dsimp only at hadvance ⊢
      split_ifs at hadvance with hkey
      · rw [if_pos hkey]
        exact run_last hadvance
      · rw [if_neg hkey]
        refine (run_cons _ _ hadvance).trans ?_
        cases hlookup : s.lookupKey env c.task.initiator c.task.key with
        | error _ => exact run_last (by simp only [advance, hlookup]; rfl)
        | ok existing =>
          refine (run_cons (.read existing) s (by simp only [advance, hlookup])).trans ?_
          exact run_last rfl
    | ok s₁ =>
      rw [hinsert] at hadvance
      refine (run_cons _ _ hadvance).trans ?_
      dsimp only
      cases hdelivery : s₁.insertDelivery env (c.chosen env).id with
      | error err => exact run_last (by simp only [advance, hdelivery]; rfl)
      | ok s₂ =>
        refine (run_cons (.read (c.chosen env).id) s₂ (by simp only [advance, hdelivery])).trans ?_
        exact run_last rfl

theorem run_insert_succ (h : c.stage = .insert) : c.run s (List.replicate 4 env) =
    ({ c with stage := .returned (s.createDispatched env c.task).1 }, (s.createDispatched env c.task).2) := by
  rw [List.replicate_succ', run_append, run_insert h]
  exact run_returned rfl

/-- **The statements of `CreateIdempotent`** are the call. -/
theorem run_createIdempotent (t : NewTask) :
    let c := start .createIdempotent t
    c.run s (List.replicate 4 env) =
      ({ c with stage := .returned (s.createIdempotent env t).1 }, (s.createIdempotent env t).2) := by
  dsimp only [start]
  by_cases hkey : t.key = ""
  · simp only [createIdempotent, if_pos hkey]
    exact run_insert_succ rfl
  · simp only [createIdempotent, if_neg hkey]
    cases hlookup : s.lookupKey env t.initiator t.key with
    | ok id =>
      refine (run_cons (.fetch id) s (by simp only [advance, hlookup])).trans ?_
      exact run_last rfl
    | error err =>
      cases err with
      | noRows =>
        refine (run_cons .insert s (by simp only [advance, hlookup])).trans ?_
        exact run_insert rfl
      | _ => exact run_last (by simp only [advance, hlookup])

/-- **The statements of `CreateFromRemote`** are the call. -/
theorem run_createFromRemote (t : NewTask) :
    let c := start .createFromRemote t
    c.run s (List.replicate 4 env) =
      ({ c with stage := .returned (s.createFromRemote env t).1 }, (s.createFromRemote env t).2) := by
  dsimp only [start]
  by_cases hid : t.id = ""
  · simp only [createFromRemote, if_pos hid]
    exact run_returned rfl
  · simp only [createFromRemote, if_neg hid]
    rcases hget : s.get env t.id with _ | _ | existing
    · exact run_last (by simp only [advance, hget])
    · refine (run_cons .insert s (by simp only [advance, hget])).trans ?_
      exact run_insert rfl
    · exact run_last (by simp only [advance, hget])

end Run

/-! ## What a statement can do -/

/-- What the next statement of a call can do. -/
inductive Moves (c : CreateCall) : Stage → Store → Prop
  /-- There is no statement left. -/
  | ended (h : (∃ result, c.stage = .returned result) ∨ c.stage = .stopped) : Moves c c.stage s
  /-- The call returns no task. -/
  | refused {result : Option (Except TaskError Task)} (hresult : ∀ task, result ≠ some (.ok task)) :
    Moves c (.returned result) s
  | found {id : String} (h : c.stage = .findKey) (hkey : s.lookupKey env c.task.initiator c.task.key = .ok id) :
    Moves c (.fetch id) s
  | missed (h : c.stage = .findKey ∨ c.stage = .findId) : Moves c .insert s
  | known {task : Task} (h : c.stage = .findId) (hget : s.get env c.task.id = some (.ok task)) :
    Moves c (.returned (some (.ok task))) s
  | inserted {s' : Store} (h : c.stage = .insert) (hinsert : s.insertTask env (c.chosen env) = .ok s') :
    Moves c (.deliver (c.chosen env).id) s'
  | taken {err : TaskError} (h : c.stage = .insert) (hkey : c.task.key ≠ "") : Moves c (.resolve err) s
  | resolved {err : TaskError} {id : String} (h : c.stage = .resolve err)
    (hkey : s.lookupKey env c.task.initiator c.task.key = .ok id) : Moves c (.read id) s
  | delivered {id : String} {s' : Store} (h : c.stage = .deliver id) (hdelivery : s.insertDelivery env id = .ok s') :
    Moves c (.read id) s'
  | fetched {id : String} {task : Task} (h : c.stage = .fetch id ∨ c.stage = .read id)
    (hget : s.get env id = some (.ok task)) : Moves c (.returned (some (.ok task))) s

theorem dispatched_eq_ok {task : Task}
    (h : dispatched env result = some (.ok task)) : result = some (.ok task) := by
  rcases result with _ | _ | task'
  · cases h
  · cases h
  · simp only [dispatched] at h
    split at h
    · cases h
    · exact h

/-- A read either returns a task or ends the call without one. -/
theorem moves_returned {c : CreateCall}
    (h : ∀ task, result = some (.ok task) → Moves s env c (.returned (some (.ok task))) s) :
    Moves s env c (.returned result) s := by
  rcases result with _ | err | task
  · exact .refused (by rintro _ ⟨⟩)
  · exact .refused (by rintro _ ⟨⟩)
  · exact h task rfl

/-- **What a statement does.** -/
theorem advance_moves (c : CreateCall) : Moves s env c (c.advance s env).1 (c.advance s env).2 := by
  have herror (err : TaskError) : Moves s env c (.returned (some (.error err))) s := .refused (by rintro _ ⟨⟩)
  unfold advance
  split
  case h_1 h =>
    split
    · exact .found h ‹_›
    · exact .missed (.inl h)
    · exact herror _
  case h_2 h =>
    split
    · exact .refused (by rintro _ ⟨⟩)
    · exact .known h ‹_›
    · exact .missed (.inr h)
  case h_3 h =>
    split
    · exact herror _
    split
    · exact herror _
    split
    · exact herror _
    split
    · split
      · exact herror _
      · exact .taken h ‹_›
    · exact .inserted h ‹_›
  case h_4 err h =>
    split
    · exact herror _
    · exact .resolved h ‹_›
  case h_5 id h =>
    split
    · exact herror _
    · exact .delivered h ‹_›
  case h_6 id h => exact moves_returned s env fun task hget => .fetched (.inl h) hget
  case h_7 id h => exact moves_returned s env fun task hget => .fetched (.inr h) (dispatched_eq_ok env hget)
  case h_8 result h =>
    have hover : Moves s env c c.stage s := .ended (.inl ⟨result, h⟩)
    rwa [h] at hover
  case h_9 h =>
    have hover : Moves s env c c.stage s := .ended (.inr h)
    rwa [h] at hover

/-! ## What the statements leave behind -/

/-- The statements end, or the `INSERT INTO task_deliveries` fails, after the `INSERT INTO tasks`. -/
def Torn : CreateCall → Store → List Env → Prop
  | c, _, [] => ∃ id, c.stage = .deliver id
  | c, s, env :: envs =>
    (∃ id, c.stage = .deliver id) ∧ env.fails .insertDelivery ≠ none ∨
      Torn { c with stage := (c.advance s env).1 } (c.advance s env).2 envs

/-- The stages after which nothing is inserted. -/
def settled : Stage → Prop
  | .resolve _ => True
  | .fetch _ => True
  | .read _ => True
  | .returned _ => True
  | .stopped => True
  | _ => False

section Leaving

variable {s env} {s' : Store} {c : CreateCall} {stage : Stage}

theorem Moves.settled (h : Moves s env c stage s') (hc : settled c.stage) : CreateCall.settled stage ∧ s' = s := by
  have habsurd {p : Prop} {stage₀ : Stage} (hstage : c.stage = stage₀) (hnot : ¬CreateCall.settled stage₀) : p :=
    absurd (hstage ▸ hc) hnot
  cases h with
  | ended => exact ⟨hc, rfl⟩
  | refused => exact ⟨trivial, rfl⟩
  | found => exact ⟨trivial, rfl⟩
  | missed hstage =>
    rcases hstage with hstage | hstage
    · exact habsurd hstage id
    · exact habsurd hstage id
  | known => exact ⟨trivial, rfl⟩
  | inserted hstage => exact habsurd hstage id
  | taken => exact ⟨trivial, rfl⟩
  | resolved => exact ⟨trivial, rfl⟩
  | delivered hstage => exact habsurd hstage id
  | fetched => exact ⟨trivial, rfl⟩

theorem run_settled (hc : settled c.stage) (envs : List Env) : (c.run s envs).2 = s ∧ ¬c.Torn s envs := by
  have hdeliver : ¬∃ id, c.stage = .deliver id := by
    rintro ⟨id, hstage⟩
    rw [hstage] at hc
    exact hc
  induction envs generalizing c with
  | nil => exact ⟨rfl, hdeliver⟩
  | cons env envs ih =>
    obtain ⟨hnext, hs⟩ := (c.advance_moves s env).settled hc
    rw [run, Torn, hs]
    have hstage : ¬∃ id, (c.advance s env).1 = .deliver id := by
      rintro ⟨id, hstage⟩
      rw [hstage] at hnext
      exact hnext
    obtain ⟨hrun, htorn⟩ := @ih { c with stage := (c.advance s env).1 } hnext hstage
    exact ⟨hrun, not_or.mpr ⟨fun h => hdeliver h.1, htorn⟩⟩

/-- The call returns no task. -/
def Fruitless (c : CreateCall) : Prop := ∀ task, c.stage ≠ .returned (some (.ok task))

/-- A call that has inserted its task: it is torn, or it inserts the delivery as well. -/
theorem run_deliver {id : String} (hc : c.stage = .deliver id) (envs : List Env) :
    c.Torn s envs ∧ (c.run s envs).2 = s ∧ (c.run s envs).1.Fruitless ∨
      ¬c.Torn s envs ∧ ∃ now, (c.run s envs).2 = s.addDelivery id now := by
  cases envs with
  | nil => exact .inl ⟨⟨id, hc⟩, rfl, fun task hstage => by rw [run, hc] at hstage; cases hstage⟩
  | cons env envs =>
    cases hfails : env.fails .insertDelivery with
    | some err =>
      have hadvance : c.advance s env = (.returned (some (.error (.db err))), s) := by
        simp only [advance, hc, insertDelivery, hfails]
      refine .inl ⟨.inl ⟨⟨id, hc⟩, by rw [hfails]; rintro ⟨⟩⟩, ?_⟩
      rw [run_last hadvance]
      exact ⟨rfl, by rintro task ⟨⟩⟩
    | none =>
      have hadvance : c.advance s env = (.read id, s.addDelivery id env.now) := by
        simp only [advance, hc, insertDelivery, hfails]
      have hrun := @run_settled (s.addDelivery id env.now) { c with stage := .read id } trivial envs
      rw [Torn, run_cons _ _ hadvance, hadvance]
      exact .inr ⟨not_or.mpr ⟨fun h => h.2 hfails, hrun.2⟩, env.now, hrun.1⟩

/-- The stages before the task is inserted. -/
def early : Stage → Prop
  | .findKey => True
  | .findId => True
  | .insert => True
  | _ => False

/-- What a call does that has not inserted its task yet: nothing, or it inserts the task and is torn or
inserts the delivery too. -/
theorem run_early (hc : early c.stage) (envs : List Env) :
    (¬c.Torn s envs ∧ (c.run s envs).2 = s) ∨ ∃ env s₁, s.insertTask env (c.chosen env) = .ok s₁ ∧
      (c.Torn s envs ∧ (c.run s envs).2 = s₁ ∧ (c.run s envs).1.Fruitless ∨
        ¬c.Torn s envs ∧ ∃ now, (c.run s envs).2 = s₁.addDelivery (c.chosen env).id now) := by
  have hdeliver : ¬∃ id, c.stage = .deliver id := by
    rintro ⟨id, hstage⟩
    rw [hstage] at hc
    exact hc
  induction envs generalizing c with
  | nil => exact .inl ⟨hdeliver, rfl⟩
  | cons env envs ih =>
    have htorn : c.Torn s (env :: envs) ↔
        Torn { c with stage := (c.advance s env).1 } (c.advance s env).2 envs :=
      ⟨fun h => h.resolve_left fun h => hdeliver h.1, .inr⟩
    rw [htorn, run]
    have hmoves := c.advance_moves s env
    generalize c.advance s env = next at hmoves ⊢
    obtain ⟨stage, s'⟩ := next
    dsimp only at hmoves ⊢
    -- A stage from which nothing is inserted any more.
    have hsettled (hstage : settled stage) (hs : s' = s) :
        ¬Torn { c with stage } s' envs ∧ (run { c with stage } s' envs).2 = s := by
      subst hs
      exact (@run_settled s' { c with stage } hstage envs).symm
    cases hmoves with
    | missed => exact @ih { c with stage := .insert } trivial (by rintro ⟨id, ⟨⟩⟩)
    | inserted _ hinsert =>
      exact .inr ⟨env, s', hinsert, @run_deliver s' { c with stage := .deliver (c.chosen env).id } _ rfl envs⟩
    | ended h =>
      rcases h with ⟨result, h⟩ | h
      · exact (h ▸ hc : early (.returned result)).elim
      · exact (h ▸ hc : early .stopped).elim
    | delivered h => exact absurd ⟨_, h⟩ hdeliver
    | refused => exact .inl (hsettled trivial rfl)
    | found => exact .inl (hsettled trivial rfl)
    | known => exact .inl (hsettled trivial rfl)
    | taken => exact .inl (hsettled trivial rfl)
    | resolved => exact .inl (hsettled trivial rfl)
    | fetched => exact .inl (hsettled trivial rfl)

end Leaving

end CreateCall

/-- What a call that creates a task leaves behind: nothing, its task, or its task with a delivery. -/
def Leaves (s s' : Store) : Prop :=
  s' = s ∨ ∃ env t s₁, s.insertTask env t = .ok s₁ ∧ (s' = s₁ ∨ ∃ now, s' = s₁.addDelivery t.id now)

namespace CreateCall

theorem leaves_run {c : CreateCall} (h : early c.stage ∨ settled c.stage) (s : Store) (envs : List Env) :
    Leaves s (c.run s envs).2 := by
  rcases h with h | h
  · rcases run_early h envs with ⟨-, hrun⟩ | ⟨env, s₁, hinsert, ⟨-, hrun, -⟩ | ⟨-, now, hrun⟩⟩
    · exact .inl hrun
    · exact .inr ⟨env, _, s₁, hinsert, .inl hrun⟩
    · exact .inr ⟨env, _, s₁, hinsert, .inr ⟨now, hrun⟩⟩
  · exact .inl (run_settled h envs).1

theorem early_or_settled_start (route : Route) (t : NewTask) :
    early (start route t).stage ∨ settled (start route t).stage := by
  cases route with
  | createIdempotent =>
    dsimp only [start]
    split <;> exact .inl trivial
  | createFromRemote =>
    dsimp only [start]
    split
    · exact .inr trivial
    · exact .inl trivial

end CreateCall

theorem leaves_createIdempotent (s : Store) (env : Env) (t : NewTask) : Leaves s (s.createIdempotent env t).2 := by
  have hleaves := CreateCall.leaves_run (CreateCall.early_or_settled_start .createIdempotent t) s (List.replicate 4 env)
  rwa [CreateCall.run_createIdempotent] at hleaves

theorem leaves_createFromRemote (s : Store) (env : Env) (t : NewTask) : Leaves s (s.createFromRemote env t).2 := by
  have hleaves := CreateCall.leaves_run (CreateCall.early_or_settled_start .createFromRemote t) s (List.replicate 4 env)
  rwa [CreateCall.run_createFromRemote] at hleaves

/-! ## The system -/

/-- An operation that is one of those that create tasks, or a statement of one. -/
def Op.creates : Op → Bool
  | .createIdempotent _ => true
  | .createFromRemote _ => true
  | .insertTask _ => true
  | .insertDelivery _ => true
  | _ => false

/-- The store with the calls that have been made to create tasks. -/
structure System where
  store : Store
  calls : List CreateCall

namespace System

/-- What happens to the store. -/
inductive Event
  /-- A call that creates a task begins. -/
  | call (route : Route) (t : NewTask)
  /-- The next statement of a call is executed. -/
  | advance (n : Nat) (env : Env)
  /-- An operation that is a single transaction. -/
  | op (i : Input) (h : i.op.creates = false)
  /-- The process stops. -/
  | stop

/-- What the end of the process is for a call. -/
def halt (c : CreateCall) : CreateCall :=
  match c.stage with
  | .returned _ => c
  | _ => { c with stage := .stopped }

/-- One event. -/
def step (S : System) : Event → Option Output × System
  | .call route t => (none, { S with calls := S.calls ++ [.start route t] })
  | .advance n env => match S.calls[n]? with
    | none => (none, S)
    | some c =>
      let next := c.advance S.store env
      (none, ⟨next.2, S.calls.set n { c with stage := next.1 }⟩)
  | .op i _ => (some (Tasks.step S.store i).1, { S with store := (Tasks.step S.store i).2 })
  | .stop => (none, { S with calls := S.calls.map halt })

/-- What an event does to the store is done by an operation; if it is not the one of the event, it creates
tasks. -/
theorem store_step (S : System) (e : Event) : (step S e).2.store = S.store ∨
    ∃ i, (step S e).2.store = (Tasks.step S.store i).2 ∧ (i.op.creates = true ∨ ∃ h, e = .op i h) := by
  cases e with
  | call route t => exact .inl rfl
  | stop => exact .inl rfl
  | op i h => exact .inr ⟨i, rfl, .inr ⟨h, rfl⟩⟩
  | advance n env =>
    simp only [step]
    split
    · exact .inl rfl
    · rename_i c hc
      have hmoves := c.advance_moves S.store env
      generalize c.advance S.store env = next at hmoves
      obtain ⟨stage, s'⟩ := next
      cases hmoves with
      | inserted h hinsert =>
        refine .inr ⟨⟨env, .insertTask (c.chosen env)⟩, ?_, .inl rfl⟩
        simp only [Tasks.step, hinsert, settle]
      | @delivered id _ h hdelivery =>
        refine .inr ⟨⟨env, .insertDelivery id⟩, ?_, .inl rfl⟩
        simp only [Tasks.step, hdelivery, settle]
      | _ => exact .inl rfl

end System

end MoltMesh.Tasks

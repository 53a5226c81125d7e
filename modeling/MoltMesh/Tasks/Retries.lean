import MoltMesh.Tasks.Deliveries
import MoltMesh.Tasks.Keys

/-!
# Retries

A call that creates a task may fail, and the process may stop, between any two of its statements.
The one who made the call tries again: with the same idempotency key or, as the daemon of another
initiator, with the same task id.  A retry looks for the row of the task only.  If the first
attempt has ended between the two inserts, the retry returns a task that is never delivered.
-/

namespace MoltMesh.Tasks

open MoltMesh.Lib MoltMesh.Tasks.Store

/-- An attempt to create a task: the statements that are executed, each with what the environment decides
during it.  The process may stop after any of them. -/
structure Attempt where
  route : Route
  task : NewTask
  envs : List Env

/-- The call of an attempt. -/
def Attempt.call (a : Attempt) : CreateCall := .start a.route a.task

/-- The stage at which an attempt ends, and the store it leaves. -/
def attempt (s : Store) (a : Attempt) : Stage × Store := ((a.call.run s a.envs).1.stage, (a.call.run s a.envs).2)

/-- What the retries of an attempt have in common with it. -/
inductive Handle
  | key (initiator key : String)
  | remote (id : String)

namespace Handle

/-- The key or the id is given. -/
def Valid : Handle → Prop
  | .key _ k => k ≠ ""
  | .remote id => id ≠ ""

/-- The attempt is one of those for the handle. -/
def Fits : Handle → Attempt → Prop
  | .key initiator k, a => a.route = .createIdempotent ∧ a.task.initiator = initiator ∧ a.task.key = k
  | .remote id, a => a.route = .createFromRemote ∧ a.task.id = id

/-- The row is that of a task for the handle. -/
def Names : Handle → TaskRow → Prop
  | .key initiator k, r => r.initiator = initiator ∧ r.idempotencyKey = k
  | .remote id, r => r.id = id

end Handle

/-- The foreign key of `task_deliveries`. -/
def Store.Referential (s : Store) : Prop := ∀ d ∈ s.deliveries.rows, ∃ row, s.tasks.lookup d.taskId = some row

/-- The attempt ends between its two inserts: the statements end, or the second one fails. -/
def Torn (s : Store) (a : Attempt) : Prop := a.call.Torn s a.envs

/-! ## What an attempt leaves behind -/

section Attempts

variable {h : Handle} {s s' : Store} {env : Env} {a : Attempt}

theorem early_call (hvalid : h.Valid) (hfits : h.Fits a) : CreateCall.early a.call.stage := by
  obtain ⟨route, t, envs⟩ := a
  cases h with
  | key initiator k =>
    obtain ⟨rfl, rfl, rfl⟩ := hfits
    change CreateCall.early (if t.key = "" then _ else _)
    rw [if_neg hvalid]
    trivial
  | remote id =>
    obtain ⟨rfl, rfl⟩ := hfits
    change CreateCall.early (if t.id = "" then _ else _)
    rw [if_neg hvalid]
    trivial

/-- The task an attempt inserts is one for its handle. -/
theorem names_chosen (hvalid : h.Valid) (hfits : h.Fits a) (env : Env) : h.Names ((a.call.chosen env).row env.now) := by
  obtain ⟨route, t, envs⟩ := a
  cases h with
  | key initiator k =>
    obtain ⟨rfl, rfl, rfl⟩ := hfits
    exact ⟨rfl, rfl⟩
  | remote id =>
    obtain ⟨rfl, rfl⟩ := hfits
    exact if_neg hvalid

/-- An attempt inserts a task only if there is none for its handle. -/
theorem unnamed_of_insertTask (hvalid : h.Valid) (hfits : h.Fits a)
    (hinsert : s.insertTask env (a.call.chosen env) = .ok s') : ∀ row ∈ s.tasks.rows, ¬h.Names row := by
  intro row hrow hnames
  have hchosen := names_chosen hvalid hfits env
  cases h with
  | key initiator k =>
    obtain ⟨hfree, -⟩ := insertTask_ok hinsert
    refine hfree ?_ row hrow (hnames.1.trans hchosen.1.symm) (hnames.2.trans hchosen.2.symm)
    exact fun hblank => hvalid (hchosen.2.symm.trans hblank)
  | remote id =>
    have hnone := (lookup_insertTask_self hinsert).1
    exact Table.lookup_eq_none.mp hnone row hrow (hnames.trans hchosen.symm)

/-! ## What an attempt returns -/

/-- The task of a call of `CreateFromRemote` is the one it has been called for. -/
structure Direct (s : Store) (c : CreateCall) : Prop where
  key : c.task.key = ""
  id : c.task.id ≠ ""
  stage : c.stage ≠ .findKey ∧ ∀ err, c.stage ≠ .resolve err
  names : ∀ id, c.stage.names = some id → id = c.task.id ∧ ∃ row, s.tasks.lookup id = some row

theorem Direct.moves {c : CreateCall} {stage : Stage} (h : Direct s c) (hmoves : c.Moves s env stage s') :
    Direct s' { c with stage } := by
  obtain ⟨hkey, hid, hstage, hnames⟩ := h
  cases hmoves with
  | ended => exact ⟨hkey, hid, hstage, hnames⟩
  | refused hresult =>
    refine ⟨hkey, hid, ⟨by rintro ⟨⟩, by rintro _ ⟨⟩⟩, fun id hid => ?_⟩
    dsimp only [Stage.names] at hid
    split at hid <;> simp_all
  | found h => exact absurd h hstage.1
  | missed => exact ⟨hkey, hid, ⟨by rintro ⟨⟩, by rintro _ ⟨⟩⟩, by rintro id ⟨⟩⟩
  | known _ hget =>
    refine ⟨hkey, hid, ⟨by rintro ⟨⟩, by rintro _ ⟨⟩⟩, fun id hid => ?_⟩
    cases hid
    obtain ⟨row, hrow, rfl⟩ := get_eq_ok hget
    have hrid : row.task.id = c.task.id := id_of_lookup hrow
    exact ⟨hrid, row, by rw [hrid, hrow]⟩
  | inserted _ hinsert =>
    refine ⟨hkey, hid, ⟨by rintro ⟨⟩, by rintro _ ⟨⟩⟩, fun id heq => ?_⟩
    cases heq
    exact ⟨if_neg hid, _, (lookup_insertTask_self hinsert).2⟩
  | taken _ hkey' => exact absurd hkey hkey'
  | resolved h => exact absurd h (hstage.2 _)
  | delivered h hdelivery =>
    refine ⟨hkey, hid, ⟨by rintro ⟨⟩, by rintro _ ⟨⟩⟩, fun id heq => ?_⟩
    cases heq
    obtain ⟨hid, row, hrow⟩ := hnames _ (by rw [h]; rfl)
    exact ⟨hid, row, by rw [insertDelivery_tasks hdelivery, hrow]⟩
  | fetched h hget =>
    refine ⟨hkey, hid, ⟨by rintro ⟨⟩, by rintro _ ⟨⟩⟩, fun id heq => ?_⟩
    cases heq
    obtain ⟨row, hrow, rfl⟩ := get_eq_ok hget
    have hrid : row.task.id = _ := id_of_lookup hrow
    rw [hrid]
    refine hnames _ ?_
    rcases h with h | h <;> rw [h] <;> rfl

theorem Direct.run {c : CreateCall} (h : Direct s c) (envs : List Env) : Direct (c.run s envs).2 (c.run s envs).1 := by
  induction envs generalizing c s with
  | nil => exact h
  | cons env envs ih => exact ih (h.moves (c.advance_moves s env))

/-- The arguments of a call stay. -/
theorem run_task (c : CreateCall) (envs : List Env) : (c.run s envs).1.task = c.task := by
  induction envs generalizing c s with
  | nil => rfl
  | cons env envs ih => exact ih _

/-- An attempt that succeeds returns a task for its handle. -/
theorem names_of_returned (hvalid : h.Valid) (hfits : h.Fits a) {task : Task}
    (hreturned : (attempt s a).1 = .returned (some (.ok task))) :
    ∃ row ∈ (attempt s a).2.tasks.rows, row.id = task.id ∧ h.Names row := by
  obtain ⟨route, t, envs⟩ := a
  cases h with
  | key initiator k =>
    obtain ⟨rfl, rfl, rfl⟩ := hfits
    have hfaithful := (CreateCall.faithful_start (s := s) t).run envs
    obtain ⟨row, hrow, hinitiator, hkey⟩ := hfaithful.owned task.id (congrArg Stage.names hreturned)
    obtain ⟨hmem, hid⟩ := Table.lookup_eq_some.mp hrow
    rw [run_task] at hinitiator hkey
    exact ⟨row, hmem, hid, hinitiator, hkey⟩
  | remote id =>
    obtain ⟨rfl, rfl⟩ := hfits
    have hdirect : Direct s (CreateCall.start .createFromRemote t) := by
      dsimp only [CreateCall.start]
      rw [if_neg hvalid]
      exact ⟨rfl, hvalid, ⟨by rintro ⟨⟩, by rintro _ ⟨⟩⟩, by rintro id ⟨⟩⟩
    obtain ⟨hid, row, hrow⟩ := (hdirect.run envs).names task.id (congrArg Stage.names hreturned)
    obtain ⟨hmem, hrid⟩ := Table.lookup_eq_some.mp hrow
    rw [run_task] at hid
    exact ⟨row, hmem, hrid, hrid.trans hid⟩

/-! ## Runs -/

/-- Every task for the handle has a delivery. -/
def Whole (h : Handle) (s : Store) : Prop := ∀ row ∈ s.tasks.rows, h.Names row → s.Delivered row.id

/-- The task for the handle has been submitted and has no delivery. -/
def Broken (h : Handle) (s : Store) : Prop :=
  ∃ row ∈ s.tasks.rows, h.Names row ∧ row.status = .submitted ∧ ¬s.Delivered row.id ∧
    ∀ r ∈ s.tasks.rows, h.Names r → r = row

theorem Store.Referential.leaves (href : s.Referential) (hleaves : Leaves s s') : s'.Referential := by
  rcases hleaves with rfl | ⟨env, t, s₁, hinsert, hs'⟩
  · exact href
  have hkept : ∀ d ∈ s₁.deliveries.rows, ∃ row, s₁.tasks.lookup d.taskId = some row := by
    intro d hd
    have hrows : s₁.deliveries = s.deliveries := by
      obtain ⟨-, tasks, -, rfl⟩ := insertTask_ok hinsert
      rfl
    obtain ⟨row, hrow⟩ := href d (hrows ▸ hd)
    exact ⟨row, (creates_insertTask hinsert).lookup hrow⟩
  rcases hs' with rfl | ⟨now, rfl⟩
  · exact hkept
  · intro d hd
    rcases Table.mem_insertOrIgnore.mp hd with hd | ⟨rfl, -⟩
    · exact hkept d hd
    · exact ⟨_, (lookup_insertTask_self hinsert).2⟩

theorem Whole.attempt (hwhole : Whole h s) (hs : s.Sequenced) (hvalid : h.Valid) (hfits : h.Fits a)
    (htorn : ¬Torn s a) : Whole h (attempt s a).2 := by
  rcases CreateCall.run_early (s := s) (early_call hvalid hfits) a.envs with
    ⟨-, hrun⟩ | ⟨env, s₁, hinsert, ⟨habsurd, -⟩ | ⟨-, now, hrun⟩⟩
  · rwa [Tasks.attempt, hrun]
  · exact absurd habsurd htorn
  · have hunnamed := unnamed_of_insertTask hvalid hfits hinsert
    obtain ⟨-, tasks, htasks, rfl⟩ := insertTask_ok hinsert
    rw [Tasks.attempt, hrun]
    intro row hrow hnames
    change row ∈ tasks.rows at hrow
    rw [Table.rows_of_insert htasks, List.mem_append, List.mem_singleton] at hrow
    rcases hrow with hrow | rfl
    · exact absurd hnames (hunnamed row hrow)
    · exact delivered_addDelivery (s := { s with tasks }) hs _ _

theorem broken_of_torn (href : s.Referential) (hvalid : h.Valid) (hfits : h.Fits a) (htorn : Torn s a) :
    Broken h (attempt s a).2 := by
  rcases CreateCall.run_early (s := s) (early_call hvalid hfits) a.envs with
    ⟨habsurd, -⟩ | ⟨env, s₁, hinsert, ⟨-, hrun, -⟩ | ⟨habsurd, -⟩⟩
  · exact absurd htorn habsurd
  · have hunnamed := unnamed_of_insertTask hvalid hfits hinsert
    have hnone := (lookup_insertTask_self hinsert).1
    obtain ⟨-, tasks, htasks, rfl⟩ := insertTask_ok hinsert
    rw [attempt, hrun]
    have hrows : tasks.rows = s.tasks.rows ++ [(a.call.chosen env).row env.now] := Table.rows_of_insert htasks
    refine ⟨(a.call.chosen env).row env.now, ?_, names_chosen hvalid hfits env, rfl, ?_, ?_⟩
    · rw [hrows]
      exact List.mem_append_right _ (List.mem_singleton_self _)
    · rintro ⟨d, hd, hid⟩
      obtain ⟨row, hrow⟩ := href d hd
      rw [hid] at hrow
      exact Option.some_ne_none row (hrow.symm.trans hnone)
    · intro r hr hnames
      rw [hrows, List.mem_append, List.mem_singleton] at hr
      exact hr.resolve_left fun hr => hunnamed r hr hnames
  · exact absurd htorn habsurd

/-- A retry finds the row of the task and writes nothing. -/
theorem Broken.attempt (hbroken : Broken h s) (hvalid : h.Valid) (hfits : h.Fits a) : (attempt s a).2 = s := by
  obtain ⟨row, hrow, hnames, -⟩ := hbroken
  rcases CreateCall.run_early (s := s) (early_call hvalid hfits) a.envs with ⟨-, hrun⟩ | ⟨env, s₁, hinsert, -⟩
  · exact hrun
  · exact absurd hnames (unnamed_of_insertTask hvalid hfits hinsert row hrow)

/-- Nothing fails. -/
def calm : Env := ⟨0, "", "", fun _ => none⟩

theorem get_calm {id : String} {row : TaskRow} (hrow : s.tasks.lookup id = some row) (hknown : row.status = .submitted) :
    s.get calm id = some (.ok row.task) := by
  simp only [Store.get, calm, hrow, hknown, knownStatuses, if_true]

/-- A retry during which nothing fails returns the task that has no delivery. -/
theorem Broken.retry (hbroken : Broken h s) (hvalid : h.Valid) : ∃ a, h.Fits a ∧ ∃ task,
    (Tasks.attempt s a).1 = .returned (some (.ok task)) ∧ task.status = .submitted ∧
      ¬(Tasks.attempt s a).2.Delivered task.id := by
  have hstore {a : Attempt} (hfits : h.Fits a) : (Tasks.attempt s a).2 = s := hbroken.attempt hvalid hfits
  obtain ⟨row, hrow, hnames, hstatus, hdelivered, hunique⟩ := hbroken
  have hget := get_calm (Table.lookup_eq_some.mpr ⟨hrow, rfl⟩) hstatus
  suffices hreturned : ∃ a, h.Fits a ∧ (Tasks.attempt s a).1 = .returned (some (.ok row.task)) by
    obtain ⟨a, hfits, hreturned⟩ := hreturned
    refine ⟨a, hfits, row.task, hreturned, hstatus, ?_⟩
    rw [hstore hfits]
    exact hdelivered
  cases h with
  | key initiator k =>
    change row.initiator = initiator ∧ row.idempotencyKey = k at hnames
    let t : NewTask := ⟨"", initiator, "", "", "", [], [], k⟩
    refine ⟨⟨.createIdempotent, t, List.replicate 4 calm⟩, ⟨rfl, rfl, rfl⟩, ?_⟩
    have hfind : s.lookupKey calm initiator k = .ok row.id := by
      cases hfind : s.tasks.rows.find? fun r => r.initiator = initiator ∧ r.idempotencyKey = k with
      | none => exact absurd (decide_eq_true hnames) (List.find?_eq_none.mp hfind row hrow)
      | some r =>
        have hr : r.initiator = initiator ∧ r.idempotencyKey = k := of_decide_eq_true (List.find?_some hfind :)
        obtain rfl := hunique r (List.mem_of_find?_eq_some hfind) hr
        simp only [lookupKey, calm, hfind]
    have hcreate : (s.createIdempotent calm t).1 = some (.ok row.task) := by
      rw [createIdempotent, if_neg hvalid, hfind]
      exact hget
    rw [Tasks.attempt, Attempt.call, CreateCall.run_createIdempotent, hcreate]
  | remote id =>
    obtain rfl : row.id = id := hnames
    let t : NewTask := ⟨row.id, "", "", "", "", [], [], ""⟩
    refine ⟨⟨.createFromRemote, t, List.replicate 4 calm⟩, ⟨rfl, rfl⟩, ?_⟩
    have hcreate : (s.createFromRemote calm t).1 = some (.ok row.task) := by
      rw [createFromRemote, if_neg hvalid, show s.get calm t.id = _ from hget]
    rw [Tasks.attempt, Attempt.call, CreateCall.run_createFromRemote, hcreate]

/-- What the attempts of a run have come to. -/
theorem whole_or_broken (hvalid : h.Valid) (hs : s.Sequenced) (href : s.Referential)
    (hnew : ∀ row ∈ s.tasks.rows, ¬h.Names row) {as : List Attempt} (has : ∀ a ∈ as, h.Fits a) :
    (runs attempt s as).Sequenced ∧ (runs attempt s as).Referential ∧
      ((∀ t ∈ turns attempt s as, ¬Torn t.before t.input) ∧ Whole h (runs attempt s as) ∨
        (∃ t ∈ turns attempt s as, Torn t.before t.input) ∧ Broken h (runs attempt s as)) := by
  induction as using List.reverseRecOn with
  | nil =>
    refine ⟨hs, href, .inl ⟨fun t ht => absurd ht List.not_mem_nil, ?_⟩⟩
    exact fun row hrow hnames => absurd hnames (hnew row hrow)
  | append_singleton as a ih =>
    obtain ⟨hs', href', hcases⟩ := ih fun b hb => has b (List.mem_append_left _ hb)
    have hfits : h.Fits a := has a (List.mem_append_right _ (List.mem_singleton_self _))
    have hleaves : Leaves (runs attempt s as) (attempt (runs attempt s as) a).2 :=
      CreateCall.leaves_run (.inl (early_call hvalid hfits)) _ _
    simp only [runs_concat, turns_concat, List.mem_append, List.mem_singleton, or_imp, forall_and, forall_eq]
    refine ⟨(grows_of_leaves hs' hleaves).sequenced hs', href'.leaves hleaves, ?_⟩
    rcases hcases with ⟨hwhole, hw⟩ | ⟨⟨t, ht, htorn⟩, hbroken⟩
    · by_cases htorn : Torn (runs attempt s as) a
      · exact .inr ⟨⟨_, .inr rfl, htorn⟩, broken_of_torn href' hvalid hfits htorn⟩
      · exact .inl ⟨⟨hwhole, htorn⟩, hw.attempt hs' hvalid hfits htorn⟩
    · refine .inr ⟨⟨t, .inl ht, htorn⟩, ?_⟩
      rw [hbroken.attempt hvalid hfits]
      exact hbroken

/-- **Creating a task is all or nothing exactly if no attempt ends between the two inserts.**  For every
sequence of attempts with one idempotency key or one remote id, each of which may fail or be stopped at any
statement: whatever retry follows, the submitted task it returns has a delivery, if and only if none of the
attempts has been torn. -/
theorem creation_whole_iff (hvalid : h.Valid) (hs : s.Sequenced) (href : s.Referential)
    (hnew : ∀ row ∈ s.tasks.rows, ¬h.Names row) {as : List Attempt} (has : ∀ a ∈ as, h.Fits a) :
    (∀ a, h.Fits a → ∀ task, (attempt (runs attempt s as) a).1 = .returned (some (.ok task)) →
      task.status = .submitted → (attempt (runs attempt s as) a).2.Delivered task.id) ↔
    ∀ t ∈ turns attempt s as, ¬Torn t.before t.input := by
  obtain ⟨hs', -, ⟨hwhole, hw⟩ | ⟨⟨t, ht, htorn⟩, hbroken⟩⟩ := whole_or_broken hvalid hs href hnew has
  · refine iff_of_true (fun a hfits task hreturned hstatus => ?_) hwhole
    obtain ⟨row, hrow, hid, hnames⟩ := names_of_returned hvalid hfits hreturned
    rw [← hid]
    refine hw.attempt hs' hvalid hfits (fun htorn => ?_) row hrow hnames
    -- A torn attempt returns no task.
    rcases CreateCall.run_early (s := runs attempt s as) (early_call hvalid hfits) a.envs with
      ⟨habsurd, -⟩ | ⟨env, s₁, -, ⟨-, -, hfruitless⟩ | ⟨habsurd, -⟩⟩
    · exact habsurd htorn
    · exact hfruitless task hreturned
    · exact habsurd htorn
  · refine iff_of_false (fun hall => ?_) fun hnone => hnone t ht htorn
    obtain ⟨a, hfits, task, hreturned, hstatus, hdelivered⟩ := hbroken.retry hvalid
    exact hdelivered (hall a hfits task hreturned hstatus)

end Attempts

/-! A client asks for a task, and the daemon stops while it creates it. -/
namespace Halfway

/-- A moment at which nothing fails. -/
def moment : Env := ⟨0, "u", "", fun _ => none⟩

def request : NewTask := ⟨"r", "did:client", "did:worker", "", "fetch", [], [], "once"⟩

/-- The process stops after a number of statements. -/
def stopped (route : Route) (n : Nat) : Attempt := ⟨route, request, List.replicate n moment⟩

/-- An attempt that stops after some statements and a whole one, which returns the task. -/
def Retried (route : Route) (n : Nat) (P : Store → String → Prop) : Prop :=
  ∃ task, (attempt (runs attempt .empty [stopped route n]) (stopped route 4)).1 = .returned (some (.ok task)) ∧
    task.status = .submitted ∧ P (attempt (runs attempt .empty [stopped route n]) (stopped route 4)).2 task.id

end Halfway

open Halfway in
/-- The process stops when the task has been inserted; the retry returns a task that has no delivery. -/
theorem task_undelivered : Retried .createIdempotent 2 (fun s id => ¬s.Delivered id) ∧
    Retried .createFromRemote 2 fun s id => ¬s.Delivered id := by
  constructor <;> exact ⟨_, rfl, rfl, fun ⟨d, hd, _⟩ => absurd hd (List.not_mem_nil (a := d))⟩

open Halfway in
/-- The process stops before the task is inserted, and the retry is as good as a first attempt. -/
theorem creation_whole_again : Retried .createIdempotent 1 Store.Delivered := by
  refine ⟨_, rfl, rfl, (creation_whole_iff (h := .key "did:client" "once") (show "once" ≠ "" by decide) sequenced_empty
    (fun d hd => absurd hd List.not_mem_nil) (fun row hrow => absurd hrow List.not_mem_nil) ?_).mpr ?_ _ ⟨rfl, rfl, rfl⟩
      _ rfl rfl⟩
  · intro a ha
    rw [List.mem_singleton.mp ha]
    exact ⟨rfl, rfl, rfl⟩
  · intro t ht
    rw [List.mem_singleton.mp ht]
    rintro (⟨⟨id, ⟨⟩⟩, -⟩ | ⟨id, ⟨⟩⟩)

end MoltMesh.Tasks

import MoltMesh.Tasks.Calls

/-!
# One task for an idempotency key

`CreateIdempotent` looks for the key, inserts the task and, if that fails, looks for the key once
more.  Other calls may come between these statements; the unique index decides which of them
creates the task.  No operation writes the initiator or the key of a task again, so whatever id a
call holds stays that of a task with its initiator and its key.
-/

namespace MoltMesh.Tasks

open MoltMesh.Lib MoltMesh.Tasks.Store

/-- The partial unique index `idx_tasks_idempotency`. -/
def Store.Indexed (s : Store) : Prop :=
  ∀ r ∈ s.tasks.rows, ∀ r' ∈ s.tasks.rows, r.idempotencyKey ≠ "" → r.initiator = r'.initiator →
    r.idempotencyKey = r'.idempotencyKey → r = r'

/-- Task `id` has been created by the initiator under the key. -/
def Store.Owned (s : Store) (id initiator key : String) : Prop :=
  ∃ row, s.tasks.lookup id = some row ∧ row.initiator = initiator ∧ row.idempotencyKey = key

theorem indexed_empty : Store.empty.Indexed := fun _ hr => absurd hr List.not_mem_nil

section Store

variable {s s' : Store} {env : Env} {t : NewTask} {id initiator key : String}

theorem Store.Indexed.insertTask (h : s.Indexed) (hinsert : s.insertTask env t = .ok s') : s'.Indexed := by
  obtain ⟨hfree, tasks, htasks, rfl⟩ := insertTask_ok hinsert
  intro r hr r' hr' hkey hinitiator heq
  rw [Table.rows_of_insert htasks, List.mem_append, List.mem_singleton] at hr hr'
  rcases hr with hr | rfl <;> rcases hr' with hr' | rfl
  · exact h r hr r' hr' hkey hinitiator heq
  · exact absurd heq (hfree (fun hblank => hkey (heq.trans hblank)) r hr hinitiator)
  · exact absurd heq.symm (hfree hkey r' hr' hinitiator.symm)
  · rfl

/-- A table keeps the index as long as no ids come and every row keeps its initiator and key. -/
theorem Store.Indexed.step (h : s.Indexed) (i : Input) : (step s i).2.Indexed := by
  rcases step_inserts s i with (hsame | ⟨env, t, s₁, hinsert, hsame⟩) | hnone
  · rwa [Indexed, hsame]
  · rw [Indexed, hsame]
    exact h.insertTask hinsert
  · have horigin : ∀ r ∈ (Tasks.step s i).2.tasks.rows, ∃ r₀ ∈ s.tasks.rows, r₀.id = r.id ∧ SameTask r₀ r := by
      intro r hr
      have hlookup : (Tasks.step s i).2.tasks.lookup r.id = some r := Table.lookup_eq_some.mpr ⟨hr, rfl⟩
      cases hbefore : s.tasks.lookup r.id with
      | none => exact absurd (hnone r.id hbefore) (by rw [hlookup]; rintro ⟨⟩)
      | some r₀ =>
        obtain ⟨r', hr', hstep⟩ := step_row hbefore i
        obtain rfl := Option.some.inj (hr'.symm.trans hlookup)
        exact ⟨r₀, (Table.lookup_eq_some.mp hbefore).1, (Table.lookup_eq_some.mp hbefore).2, hstep.sameTask⟩
    intro r hr r' hr' hkey hinitiator heq
    obtain ⟨r₀, hr₀, hid, hsame⟩ := horigin r hr
    obtain ⟨r₀', hr₀', hid', hsame'⟩ := horigin r' hr'
    rw [hsame.idempotencyKey] at hkey
    rw [hsame.initiator, hsame'.initiator] at hinitiator
    rw [hsame.idempotencyKey, hsame'.idempotencyKey] at heq
    refine Table.eq_of_key_eq hr hr' ?_
    rw [← hid, ← hid', h r₀ hr₀ r₀' hr₀' hkey hinitiator heq]

/-- An initiator has at most one task under a key. -/
theorem Store.Indexed.length_le (h : s.Indexed) (hkey : key ≠ "") :
    (s.tasks.select fun r => r.initiator = initiator ∧ r.idempotencyKey = key).length ≤ 1 := by
  have hnodup := s.tasks.nodup_map_select fun r => r.initiator = initiator ∧ r.idempotencyKey = key
  have hmem : ∀ r ∈ s.tasks.select fun r => r.initiator = initiator ∧ r.idempotencyKey = key,
      r ∈ s.tasks.rows ∧ r.initiator = initiator ∧ r.idempotencyKey = key := by
    intro r hr
    obtain ⟨hr, hpair⟩ := Table.mem_select.mp hr
    exact ⟨hr, of_decide_eq_true hpair⟩
  generalize s.tasks.select _ = l at hnodup hmem
  match l with
  | [] => exact Nat.zero_le _
  | [_] => exact Nat.le_refl _
  | r :: r' :: l =>
    obtain ⟨hr, hinitiator, heq⟩ := hmem r (by simp)
    obtain ⟨hr', hinitiator', heq'⟩ := hmem r' (by simp)
    obtain rfl := h r hr r' hr' (fun hblank => hkey (heq.symm.trans hblank)) (hinitiator.trans hinitiator'.symm)
      (heq.trans heq'.symm)
    exact absurd (List.mem_cons_self ..) (List.nodup_cons.mp hnodup).1

theorem Store.Owned.step (h : s.Owned id initiator key) (i : Input) : (step s i).2.Owned id initiator key := by
  obtain ⟨row, hrow, hinitiator, hkey⟩ := h
  obtain ⟨row', hrow', hstep⟩ := step_row hrow i
  exact ⟨row', hrow', hstep.sameTask.initiator.trans hinitiator, hstep.sameTask.idempotencyKey.trans hkey⟩

/-- Two tasks of one initiator and one key are the same. -/
theorem Store.Owned.unique {id' : String} (h : s.Owned id initiator key) (h' : s.Owned id' initiator key)
    (hindex : s.Indexed) (hkey : key ≠ "") : id = id' := by
  obtain ⟨row, hrow, rfl, rfl⟩ := h
  obtain ⟨row', hrow', hinitiator, heq⟩ := h'
  obtain ⟨hmem, rfl⟩ := Table.lookup_eq_some.mp hrow
  obtain ⟨hmem', rfl⟩ := Table.lookup_eq_some.mp hrow'
  rw [hindex row hmem row' hmem' hkey hinitiator.symm heq.symm]

/-- A task has one initiator and one key. -/
theorem Store.Owned.pair {initiator' key' : String} (h : s.Owned id initiator key) (h' : s.Owned id initiator' key') :
    initiator = initiator' ∧ key = key' := by
  obtain ⟨row, hrow, rfl, rfl⟩ := h
  obtain ⟨row', hrow', rfl, rfl⟩ := h'
  obtain rfl := Option.some.inj (hrow.symm.trans hrow')
  exact ⟨rfl, rfl⟩

theorem owned_of_lookupKey (h : s.lookupKey env initiator key = .ok id) : s.Owned id initiator key := by
  unfold lookupKey at h
  split at h
  · cases h
  split at h
  · cases h
  · rename_i row hfind
    cases h
    obtain ⟨hinitiator, hkey⟩ := of_decide_eq_true (List.find?_some hfind :)
    exact ⟨row, Table.lookup_eq_some.mpr ⟨List.mem_of_find?_eq_some hfind, rfl⟩, hinitiator, hkey⟩

theorem get_eq_ok {task : Task} (h : s.get env id = some (.ok task)) :
    ∃ row, s.tasks.lookup id = some row ∧ task = row.task := by
  unfold Store.get at h
  split at h
  · cases h
  split at h
  · cases h
  split at h
  · cases h
    exact ⟨_, ‹_›, rfl⟩
  · cases h

end Store

/-! ## Calls -/

/-- The task a call is about, as far as it knows. -/
def Stage.names : Stage → Option String
  | .deliver id => some id
  | .fetch id => some id
  | .read id => some id
  | .returned (some (.ok task)) => some task.id
  | _ => none

namespace CreateCall

variable {s s' : Store} {env : Env} {c : CreateCall} {stage : Stage}

/-- The task of the call is one of its initiator and its key. -/
structure Faithful (s : Store) (c : CreateCall) : Prop where
  stage : c.stage ≠ .findId
  owned : ∀ id, c.stage.names = some id → s.Owned id c.task.initiator c.task.key

theorem faithful_start (t : NewTask) : (start .createIdempotent t).Faithful s := by
  unfold start
  dsimp only
  split <;> exact ⟨by rintro ⟨⟩, by rintro id ⟨⟩⟩

theorem Faithful.halt (h : c.Faithful s) : (System.halt c).Faithful s := by
  unfold System.halt
  split
  · exact h
  · exact ⟨by rintro ⟨⟩, by rintro id ⟨⟩⟩

theorem Faithful.mono (h : c.Faithful s)
    (hmono : ∀ id initiator key, s.Owned id initiator key → s'.Owned id initiator key) : c.Faithful s' :=
  ⟨h.stage, fun id hid => hmono _ _ _ (h.owned id hid)⟩

theorem Faithful.moves (h : c.Faithful s) (hmoves : Moves s env c stage s') : { c with stage }.Faithful s' := by
  cases hmoves with
  | ended => exact h
  | refused hresult =>
    refine ⟨by rintro ⟨⟩, fun id hid => ?_⟩
    dsimp only [Stage.names] at hid
    split at hid <;> simp_all
  | found _ hkey =>
    refine ⟨by rintro ⟨⟩, fun id hid => ?_⟩
    cases hid
    exact owned_of_lookupKey hkey
  | missed => exact ⟨by rintro ⟨⟩, by rintro id ⟨⟩⟩
  | known hstage => exact absurd hstage h.stage
  | inserted _ hinsert =>
    refine ⟨by rintro ⟨⟩, fun id hid => ?_⟩
    cases hid
    exact ⟨_, (lookup_insertTask_self hinsert).2, rfl, rfl⟩
  | taken => exact ⟨by rintro ⟨⟩, by rintro id ⟨⟩⟩
  | resolved _ hkey =>
    refine ⟨by rintro ⟨⟩, fun id hid => ?_⟩
    cases hid
    exact owned_of_lookupKey hkey
  | delivered hstage hdelivery =>
    refine ⟨by rintro ⟨⟩, fun id hid => ?_⟩
    cases hid
    obtain ⟨row, hrow, hpair⟩ := h.owned _ (by rw [hstage]; rfl)
    exact ⟨row, by rw [insertDelivery_tasks hdelivery, hrow], hpair⟩
  | fetched hstage hget =>
    refine ⟨by rintro ⟨⟩, fun id hid => ?_⟩
    cases hid
    obtain ⟨row, hrow, rfl⟩ := get_eq_ok hget
    have hid : row.task.id = _ := id_of_lookup hrow
    rw [hid]
    refine h.owned _ ?_
    rcases hstage with hstage | hstage <;> rw [hstage] <;> rfl

theorem Faithful.run (h : c.Faithful s) (envs : List Env) : (c.run s envs).1.Faithful (c.run s envs).2 := by
  induction envs generalizing c s with
  | nil => exact h
  | cons env envs ih => exact ih (h.moves (c.advance_moves s env))

/-- A call of `CreateIdempotent` that has returned the task. -/
def Returned (c : CreateCall) (task : Task) : Prop :=
  c.route = .createIdempotent ∧ c.stage = .returned (some (.ok task))

end CreateCall

/-! ## The system -/

namespace System

variable {S : System}

/-- The index holds, and the calls of `CreateIdempotent` know tasks of their initiator and key. -/
structure Keyed (S : System) : Prop where
  indexed : S.store.Indexed
  faithful : ∀ c ∈ S.calls, c.route = .createIdempotent → c.Faithful S.store

theorem owned_step (e : Event) {id initiator key : String} (h : S.store.Owned id initiator key) :
    (step S e).2.store.Owned id initiator key := by
  rcases store_step S e with hsame | ⟨i, hi, -⟩
  · rwa [hsame]
  · rw [hi]
    exact h.step i

theorem Keyed.step (h : Keyed S) (e : Event) : Keyed (step S e).2 := by
  constructor
  · rcases store_step S e with hsame | ⟨i, hi, -⟩
    · rw [hsame]
      exact h.indexed
    · rw [hi]
      exact h.indexed.step i
  · intro c hc hroute
    have hmono : ∀ id initiator key, S.store.Owned id initiator key → (System.step S e).2.store.Owned id initiator key :=
      fun _ _ _ => owned_step e
    cases e with
    | call route t =>
      rcases List.mem_append.mp hc with hc | hc
      · exact h.faithful c hc hroute
      · obtain rfl := List.mem_singleton.mp hc
        cases route with
        | createIdempotent => exact CreateCall.faithful_start t
        | createFromRemote => cases hroute
    | op i hi => exact (h.faithful c hc hroute).mono hmono
    | stop =>
      obtain ⟨c₀, hc₀, rfl⟩ := List.mem_map.mp hc
      refine (h.faithful c₀ hc₀ ?_).halt
      rw [← hroute, halt]
      split <;> rfl
    | advance n env =>
      cases hc₀ : S.calls[n]? with
      | none =>
        simp only [System.step, hc₀] at hc ⊢
        exact h.faithful c hc hroute
      | some c₀ =>
        simp only [System.step, hc₀] at hc hmono ⊢
        rcases List.mem_or_eq_of_mem_set hc with hc | rfl
        · exact (h.faithful c hc hroute).mono hmono
        · exact (h.faithful c₀ (List.mem_of_getElem? hc₀) hroute).moves (c₀.advance_moves S.store env)

/-- **One task for a key**: whatever calls are made and however their statements are interleaved, the calls
of `CreateIdempotent` with one initiator and one key that succeed return the same task, there is at most one
such task, and calls with another initiator or another key return another task. -/
theorem one_task_per_key {s : Store} (hindex : s.Indexed) (es : List Event) :
    let S := runs step ⟨s, []⟩ es
    (∀ c ∈ S.calls, ∀ c' ∈ S.calls, ∀ task task', c.Returned task → c'.Returned task' → c.task.key ≠ "" →
      c.task.initiator = c'.task.initiator → c.task.key = c'.task.key → task.id = task'.id) ∧
    (∀ initiator key, key ≠ "" →
      (S.store.tasks.select fun r => r.initiator = initiator ∧ r.idempotencyKey = key).length ≤ 1) ∧
    (∀ c ∈ S.calls, ∀ c' ∈ S.calls, ∀ task task', c.Returned task → c'.Returned task' →
      (c.task.initiator, c.task.key) ≠ (c'.task.initiator, c'.task.key) → task.id ≠ task'.id) := by
  intro S
  have hkeyed : Keyed S := by
    refine turns_induction (motive := fun _ S => Keyed S) ?_ (fun _ S e hS => hS.step e) es
    exact ⟨hindex, fun c hc => absurd hc List.not_mem_nil⟩
  have howned : ∀ c ∈ S.calls, ∀ task, c.Returned task → S.store.Owned task.id c.task.initiator c.task.key := by
    rintro c hc task ⟨hroute, hstage⟩
    exact (hkeyed.faithful c hc hroute).owned task.id (by rw [hstage]; rfl)
  refine ⟨?_, ?_, ?_⟩
  · intro c hc c' hc' task task' hreturned hreturned' hkey hinitiator heq
    refine (howned c hc task hreturned).unique ?_ hkeyed.indexed hkey
    rw [hinitiator, heq]
    exact howned c' hc' task' hreturned'
  · exact fun initiator key hkey => hkeyed.indexed.length_le hkey
  · intro c hc c' hc' task task' hreturned hreturned' hpair hid
    have hown' := howned c' hc' task' hreturned'
    rw [← hid] at hown'
    obtain ⟨hinitiator, hkey⟩ := (howned c hc task hreturned).pair hown'
    exact hpair (Prod.ext hinitiator hkey)

/-! Two calls with the same key, each before the other has seen its task. -/
namespace Race

/-- A moment at which nothing fails. -/
def moment (uuid : String) : Env := ⟨0, uuid, "", fun _ => none⟩

/-- A request, of which the assignees differ. -/
def request (assignee : String) : NewTask := ⟨"", "did:client", assignee, "", "fetch", [], [], "once"⟩

/-- Both look for the key and find nothing, then the first one inserts its task. -/
def race : List Event :=
  [.call .createIdempotent (request "did:a"), .call .createIdempotent (request "did:b"),
    .advance 0 (moment "u0"), .advance 1 (moment "u1"), .advance 0 (moment "u0"), .advance 1 (moment "u1"),
    .advance 1 (moment "u1"), .advance 1 (moment "u1"), .advance 0 (moment "u0"), .advance 0 (moment "u0")]

/-- A call that has returned a task. -/
def ended (assignee : String) (task : Task) : CreateCall :=
  ⟨.createIdempotent, request assignee, .returned (some (.ok task))⟩

end Race

open Race in
theorem one_task_per_key_race : ∃ task task',
    (runs step ⟨.empty, []⟩ race).calls = [ended "did:a" task, ended "did:b" task'] ∧ task.id = task'.id := by
  refine ⟨_, _, rfl, ?_⟩
  refine (one_task_per_key indexed_empty race).1 (ended "did:a" _) ?_ (ended "did:b" _) ?_ _ _ ⟨rfl, rfl⟩ ⟨rfl, rfl⟩
    (by decide) rfl rfl
  · exact List.mem_cons_self ..
  · exact List.mem_cons_of_mem _ (List.mem_cons_self ..)

end System

end MoltMesh.Tasks

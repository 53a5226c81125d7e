import MoltMesh.Tasks.Deliveries

/-!
# The retry budget

A fresh lease of a task is one more attempt, and a lease that has run out is one more delivery.  The
attempts are counted in the row, and neither `Claim` nor `requeueExpired` goes on when they are
used up.

Nothing counts the deliveries.  That there are no more of them than attempts rests on the lease
columns: after a requeue there is no lease that could run out, until the next claim.  The lease
that ended in 1970 is one all the same for `RenewLease` on a clock that is before it.
-/

namespace MoltMesh.Tasks

open MoltMesh.Lib MoltMesh.Tasks.Store

variable {op : Op} {out : Output}

/-- The deliveries of a task. -/
def deliveriesOf (s : Store) (id : String) : List DeliveryRow := s.deliveries.select fun d => d.taskId = id

/-- A claim that repeats one: the worker has a lease that has not run out. -/
def repeats (row : TaskRow) (worker : String) (now : Int) : Bool :=
  row.status = .working ∧ row.leaseOwner.getD "" = worker ∧ row.leaseExpiresAt.any fun x => now < x

/-! ## Claims -/

section Rows

variable {s : Store} {id worker : String} {row row' : TaskRow} {env : Env}

/-- A claim that succeeds and repeats none is a fresh attempt, before the deadline and within the budget;
any other claim leaves the attempts as they are. -/
theorem claim_attempt (h : s.tasks.lookup id = some row) (lease : Int) :
    (∃ l, (s.claim env id worker lease).1 = .ok l ∧ repeats row worker env.now = false ∧
      pastDeadline env.now row = false ∧ spent row = false ∧
        ∃ row', (s.claim env id worker lease).2.tasks.lookup id = some row' ∧ row'.attempt = row.attempt + 1) ∨
    ((∀ l, (s.claim env id worker lease).1 = .ok l → repeats row worker env.now = true) ∧
      ∃ row', (s.claim env id worker lease).2.tasks.lookup id = some row' ∧ row'.attempt = row.attempt) := by
  have hown : decide (row.id = id) = true := decide_eq_true (id_of_lookup h)
  unfold claim
  rw [h]
  split
  · exact .inr ⟨by rintro l ⟨⟩, row, h, rfl⟩
  dsimp only
  split_ifs with hassignee hdeadline hlive hconflict hspent
  · exact .inr ⟨by rintro l ⟨⟩, row, h, rfl⟩
  · split
    · exact .inr ⟨by rintro l ⟨⟩, row, h, rfl⟩
    · by_cases hopen : row.status = .submitted ∨ row.status = .working
      · exact .inr ⟨by rintro l ⟨⟩, _, update_own h (decide_eq_true ⟨id_of_lookup h, hopen⟩), rfl⟩
      · exact .inr ⟨by rintro l ⟨⟩, row, update_other h (decide_eq_false fun hand => hopen hand.2), rfl⟩
  · split
    · exact .inr ⟨by rintro l ⟨⟩, row, h, rfl⟩
    · exact .inr ⟨fun l _ => decide_eq_true hlive, row, h, rfl⟩
  · exact .inr ⟨by rintro l ⟨⟩, row, h, rfl⟩
  · split
    · exact .inr ⟨by rintro l ⟨⟩, row, h, rfl⟩
    · exact .inr ⟨by rintro l ⟨⟩, _, update_own h hown, rfl⟩
  · split
    · exact .inr ⟨by rintro l ⟨⟩, row, h, rfl⟩
    split
    · exact .inr ⟨by rintro l ⟨⟩, row, h, rfl⟩
    · refine .inl ⟨_, rfl, decide_eq_false hlive, ?_, ?_, _, update_own h hown, rfl⟩
      · exact Bool.eq_false_iff.mpr hdeadline
      · exact Bool.eq_false_iff.mpr hspent

/-- Only a claim of the task is an attempt. -/
theorem RowStep.attempt (h : RowStep id env row op out row')
    (hop : ∀ worker lease, op ≠ .claim id worker lease) : row'.attempt = row.attempt := by
  cases h <;> first | rfl | exact absurd rfl (hop _ _)

/-- An operation that creates tasks leaves the rows alone that are there. -/
theorem RowStep.of_creates (h : RowStep id env row op out row') (hop : op.creates = true) :
    row' = row := by
  cases h <;> first | rfl | cases hop

/-- Only `SetMaxAttempts` writes the budget. -/
theorem RowStep.maxAttempts_eq (h : RowStep id env row op out row')
    (hop : ∀ max, op ≠ .setMaxAttempts id max) : row'.maxAttempts = row.maxAttempts := by
  cases h <;> first | rfl | exact absurd rfl (hop _)

/-- A lease that ends after 1970 is there already or is a new attempt. -/
theorem RowStep.lease (h : RowStep id env row op out row')
    (hrenews : (∃ id worker token lease, op = .renewLease id worker token lease) → 0 ≤ env.now) :
    row.attempt ≤ row'.attempt ∧ ∀ x, row'.leaseExpiresAt = some x → 0 < x →
      row'.attempt = row.attempt + 1 ∨ ∃ y, row.leaseExpiresAt = some y ∧ 0 < y := by
  have hkeeps : ∀ x, row.leaseExpiresAt = some x → 0 < x →
      row.attempt = row.attempt + 1 ∨ ∃ y, row.leaseExpiresAt = some y ∧ 0 < y :=
    fun x hx hpos => .inr ⟨x, hx, hpos⟩
  have hgone {p : Prop} : ∀ x : Int, some 0 = some x → 0 < x → p := by
    rintro x ⟨⟩ hpos
    exact absurd hpos (Int.lt_irrefl 0)
  cases h with
  | same => exact ⟨Nat.le_refl _, hkeeps⟩
  | updated => exact ⟨Nat.le_refl _, hkeeps⟩
  | overdue => exact ⟨Nat.le_refl _, hkeeps⟩
  | exhausted => exact ⟨Nat.le_refl _, hgone⟩
  | reclaimed => exact ⟨Nat.le_refl _, hkeeps⟩
  | claimed => exact ⟨Nat.le_succ _, fun _ _ _ => .inl rfl⟩
  | renewed hholds =>
    obtain ⟨-, -, -, -, y, hy, hnow⟩ := holdsLease_eq_true.mp hholds
    exact ⟨Nat.le_refl _, fun _ _ _ => .inr ⟨y, hy, (hrenews ⟨_, _, _, _, rfl⟩).trans_lt hnow⟩⟩
  | finished => exact ⟨Nat.le_refl _, hgone⟩
  | requeued => exact ⟨Nat.le_refl _, hgone⟩
  | abandoned => exact ⟨Nat.le_refl _, hgone⟩
  | maxAttempts => exact ⟨Nat.le_refl _, hkeeps⟩
  | timeout => exact ⟨Nat.le_refl _, hkeeps⟩

end Rows

/-! ## Deliveries -/

section Deliveries

variable {s : Store} {id : String} {row : TaskRow}

theorem length_addDelivery_le (s : Store) (id k : String) (now : Int) :
    (deliveriesOf (s.addDelivery k now) id).length ≤ (deliveriesOf s id).length + if k = id then 1 else 0 := by
  unfold deliveriesOf addDelivery Table.select Table.insertOrIgnore
  dsimp only
  split
  · exact Nat.le_add_right _ _
  · rw [List.filter_append, List.length_append, List.filter_singleton]
    by_cases hk : k = id <;> simp [hk]

/-- One round of `requeueExpired` adds a delivery of the task it is about, unless the task is given up. -/
theorem length_requeue_le (now : Int) (row : TaskRow) :
    (deliveriesOf (requeue now s row) id).length ≤ (deliveriesOf s id).length +
      if row.id = id ∧ ¬(pastDeadline now row = true ∨ spent row = true) then 1 else 0 := by
  unfold requeue
  split
  · exact Nat.le_add_right _ _
  · rename_i hopen
    refine (length_addDelivery_le ..).trans (Nat.add_le_add_left ?_ _)
    split
    · rw [if_pos ⟨‹_›, hopen⟩]
    · exact Nat.zero_le _

theorem length_foldl_requeue_of_notMem {now : Int} {rows : List TaskRow} (hid : id ∉ rows.map TaskRow.id) :
    (deliveriesOf (rows.foldl (requeue now) s) id).length ≤ (deliveriesOf s id).length := by
  induction rows generalizing s with
  | nil => exact Nat.le_refl _
  | cons r rows ih =>
    rw [List.map_cons, List.mem_cons, not_or] at hid
    refine (ih hid.2).trans ((length_requeue_le now r).trans ?_)
    rw [if_neg fun h => hid.1 h.1.symm, Nat.add_zero]

theorem length_foldl_requeue_of_mem {now : Int} {rows : List TaskRow} (hnodup : (rows.map TaskRow.id).Nodup)
    (hmem : row ∈ rows) (hid : row.id = id) :
    (deliveriesOf (rows.foldl (requeue now) s) id).length ≤ (deliveriesOf s id).length +
      if pastDeadline now row = true ∨ spent row = true then 0 else 1 := by
  induction rows generalizing s with
  | nil => cases hmem
  | cons r rows ih =>
    obtain ⟨hr, hrows⟩ := List.nodup_cons.mp hnodup
    rcases List.mem_cons.mp hmem with rfl | hmem
    · rw [List.foldl_cons]
      refine (length_foldl_requeue_of_notMem (hid ▸ hr)).trans ((length_requeue_le now row).trans ?_)
      refine Nat.add_le_add_left ?_ _
      split_ifs <;> simp_all
    · have hne : r.id ≠ id := fun heq => hr (heq.trans hid.symm ▸ List.mem_map_of_mem hmem)
      refine (ih hrows hmem).trans (Nat.add_le_add_right ?_ _)
      refine (length_requeue_le now r).trans ?_
      rw [if_neg fun h => hne h.1, Nat.add_zero]

/-- `requeueExpired` adds at most one delivery of a task, and then a lease of the task has run out and there are
attempts left. -/
theorem length_requeueExpired_le (h : s.tasks.lookup id = some row) (env : Env) :
    (deliveriesOf (s.requeueExpired env).2 id).length ≤ (deliveriesOf s id).length ∨
      (deliveriesOf (s.requeueExpired env).2 id).length ≤ (deliveriesOf s id).length + 1 ∧
        (∃ x, row.leaseExpiresAt = some x ∧ 0 < x) ∧ spent row = false ∧
          ∃ row', (s.requeueExpired env).2.tasks.lookup id = some row' ∧ row'.attempt = row.attempt ∧
            row'.leaseExpiresAt = some 0 := by
  unfold requeueExpired write
  split
  · exact .inl (Nat.le_refl _)
  split
  · exact .inl (Nat.le_refl _)
  dsimp only
  by_cases hexpired : row ∈ s.expired env.now
  · have hle := @length_foldl_requeue_of_mem s id row env.now _ (s.tasks.nodup_map_select _) hexpired (id_of_lookup h)
    have hrow := @lookup_foldl_requeue_of_mem env.now s id row _ h (s.tasks.nodup_map_select _) hexpired
    split at hle
    · exact .inl hle
    · rename_i hopen
      rw [not_or, Bool.not_eq_true, Bool.not_eq_true] at hopen
      simp only [expired, Table.mem_select, decide_eq_true_eq, Option.any_eq_true] at hexpired
      obtain ⟨-, -, x, hx, hpos, -⟩ := hexpired
      refine .inr ⟨hle, ⟨x, hx, hpos⟩, hopen.2, _, hrow, ?_⟩
      unfold requeuedRow
      split <;> exact ⟨rfl, rfl⟩
  · refine .inl (length_foldl_requeue_of_notMem fun hid => hexpired ?_)
    obtain ⟨r, hr, hrid⟩ := List.mem_map.mp hid
    have hrow := Table.lookup_eq_some.mp h
    rwa [← Table.eq_of_key_eq (Table.mem_select.mp hr).1 hrow.1 (hrid.trans hrow.2.symm)]

end Deliveries

/-! ## Runs -/

/-- The call inserts the delivery of the task next. -/
def Stage.delivers (id : String) : Stage → Bool
  | .deliver id' => id' = id
  | _ => false

namespace System

variable {S : System} {id : String}

/-- The deliveries of a task, with those that are about to be inserted. -/
def given (S : System) (id : String) : Nat :=
  (deliveriesOf S.store id).length + S.calls.countP fun c => c.stage.delivers id

/-- A `Claim` of the task that succeeds and does not repeat one: a fresh token is issued. -/
def issues (id : String) (t : Turn System Event (Option Output)) : Bool :=
  match t.input, t.output with
  | .op i _, some (.lease (.ok _)) => match i.op with
    | .claim id' worker _ =>
      id' = id ∧ (t.before.store.tasks.lookup id).any fun row => !repeats row worker i.env.now
    | _ => false
  | _, _ => false

/-- `max_attempts` of the task is `m` whenever `Claim` or `requeueExpired` reads it. -/
def FixedBudget (past : List (Turn System Event (Option Output))) (id : String) (m : Nat) : Prop :=
  ∀ t ∈ past, ∀ i h, t.input = .op i h → (i.op = .requeueExpired ∨ ∃ worker lease, i.op = .claim id worker lease) →
    ∀ row, t.before.store.tasks.lookup id = some row → row.maxAttempts = m

/-- No lease is renewed on a clock that is before 1970. -/
def RenewsInTime (past : List (Turn System Event (Option Output))) : Prop :=
  ∀ t ∈ past, ∀ i h, t.input = .op i h → (∃ id worker token lease, i.op = .renewLease id worker token lease) → 0 ≤ i.env.now

/-! ### What an event does to the deliveries -/

theorem countP_halt_le (calls : List CreateCall) :
    ((calls.map halt).countP fun c => c.stage.delivers id) ≤ calls.countP fun c => c.stage.delivers id := by
  rw [List.countP_map]
  refine List.countP_mono_left fun c _ hc => ?_
  dsimp only [Function.comp_apply, halt] at hc
  split at hc
  · exact hc
  · cases hc

theorem countP_start (calls : List CreateCall) (route : Route) (t : NewTask) :
    ((calls ++ [CreateCall.start route t]).countP fun c => c.stage.delivers id) =
      calls.countP fun c => c.stage.delivers id := by
  rw [List.countP_append, Nat.add_eq_left, List.countP_eq_zero]
  intro c hc
  obtain rfl := List.mem_singleton.mp hc
  cases route <;> (dsimp only [CreateCall.start]; split <;> exact Bool.false_ne_true)

/-- A statement of a call adds to the deliveries only if it inserts the task. -/
theorem given_advance (n : Nat) (env : Env) :
    given (step S (.advance n env)).2 id ≤ given S id ∨
      given (step S (.advance n env)).2 id ≤ given S id + 1 ∧ S.store.tasks.lookup id = none ∧
        ∃ (t : NewTask) (now : Int), (step S (.advance n env)).2.store.tasks.lookup id = some (t.row now) := by
  simp only [step]
  split
  · exact .inl (Nat.le_refl _)
  rename_i c hc
  obtain ⟨hn, hget⟩ := List.getElem?_eq_some_iff.mp hc
  have hmoves := c.advance_moves S.store env
  generalize c.advance S.store env = next at hmoves ⊢
  obtain ⟨stage, s'⟩ := next
  dsimp only at hmoves ⊢
  -- The call that is at its delivery is one of those that are counted.
  have hcount : (if c.stage.delivers id = true then 1 else 0) ≤ S.calls.countP fun c => c.stage.delivers id := by
    split
    · exact List.countP_pos_iff.mpr ⟨c, List.mem_of_getElem? hc, ‹_›⟩
    · exact Nat.zero_le _
  unfold given
  dsimp only
  rw [List.countP_set hn, hget]
  have hquiet (hstage : Stage.delivers id stage = false) (hs : s' = S.store) :
      (deliveriesOf s' id).length + (List.countP (fun c => Stage.delivers id c.stage) S.calls -
        (if Stage.delivers id c.stage = true then 1 else 0) + if Stage.delivers id stage = true then 1 else 0) ≤
        (deliveriesOf S.store id).length + List.countP (fun c => Stage.delivers id c.stage) S.calls := by
    rw [hs, hstage, if_neg Bool.false_ne_true, Nat.add_zero]
    exact Nat.add_le_add_left (Nat.sub_le _ _) _
  cases hmoves with
  | inserted _ hinsert =>
    obtain ⟨-, tasks, -, rfl⟩ := insertTask_ok hinsert
    by_cases hid : (c.chosen env).id = id
    · refine .inr ⟨?_, hid ▸ (lookup_insertTask_self hinsert).1, c.chosen env, env.now,
        hid ▸ (lookup_insertTask_self hinsert).2⟩
      rw [Nat.add_assoc]
      refine Nat.add_le_add_left (Nat.add_le_add (Nat.sub_le _ _) ?_) _
      split <;> exact Nat.le_of_ble_eq_true rfl
    · rw [Stage.delivers, decide_eq_false hid, if_neg Bool.false_ne_true, Nat.add_zero]
      exact .inl (Nat.add_le_add_left (Nat.sub_le _ _) _)
  | @delivered k _ hstage hdelivery =>
    unfold insertDelivery at hdelivery
    split at hdelivery
    · cases hdelivery
    cases hdelivery
    have hle := length_addDelivery_le S.store id k env.now
    simp only [hstage, Stage.delivers, decide_eq_true_eq, Bool.false_eq_true, if_false] at hcount ⊢
    exact .inl (by omega)
  | ended hstage =>
    refine .inl (hquiet ?_ rfl)
    rcases hstage with ⟨result, hstage⟩ | hstage <;> (rw [hstage]; rfl)
  | _ => exact .inl (hquiet rfl rfl)

/-- **What an event does to the deliveries of a task**: one is added if the task is inserted, or if its lease has
run out and there are attempts left. -/
theorem given_step (S : System) (e : Event) (id : String) :
    given (step S e).2 id ≤ given S id ∨
      given (step S e).2 id ≤ given S id + 1 ∧ S.store.tasks.lookup id = none ∧
        (∃ (t : NewTask) (now : Int), (step S e).2.store.tasks.lookup id = some (t.row now)) ∨
      given (step S e).2 id ≤ given S id + 1 ∧ (∃ i h, e = .op i h ∧ i.op = .requeueExpired) ∧
        ∃ row row', S.store.tasks.lookup id = some row ∧ (∃ x, row.leaseExpiresAt = some x ∧ 0 < x) ∧
          spent row = false ∧ (step S e).2.store.tasks.lookup id = some row' ∧ row'.attempt = row.attempt ∧
            row'.leaseExpiresAt = some 0 := by
  cases e with
  | call route t => exact .inl (Nat.add_le_add_left (countP_start S.calls route t).le _)
  | stop => exact .inl (Nat.add_le_add_left (countP_halt_le S.calls) _)
  | advance n env =>
    rcases given_advance n env with hle | hinserted
    · exact .inl hle
    · exact .inr (.inl hinserted)
  | op i h =>
    by_cases hop : i.op = .requeueExpired
    · obtain ⟨env, op⟩ := i
      cases hop
      cases hrow : S.store.tasks.lookup id with
      | none =>
        refine .inl (Nat.add_le_add_right ?_ _)
        simp only [step, Tasks.step, Prod.map_snd, requeueExpired, write]
        split
        · exact Nat.le_refl _
        split
        · exact Nat.le_refl _
        refine length_foldl_requeue_of_notMem fun hid => ?_
        obtain ⟨r, hr, hrid⟩ := List.mem_map.mp hid
        exact Table.lookup_eq_none.mp hrow r (Table.mem_select.mp hr).1 hrid
      | some row =>
        rcases length_requeueExpired_le hrow env with hle | ⟨hle, hlease, hspent, row', hrow', hrest⟩
        · exact .inl (Nat.add_le_add_right hle _)
        · refine .inr (.inr ⟨?_, ⟨_, h, rfl, rfl⟩, row, row', rfl, hlease, hspent, hrow', hrest⟩)
          rw [given, given, Nat.add_right_comm]
          exact Nat.add_le_add_right hle _
    · have hsame := (step_deliveries (s := S.store) i h hop).1
      refine .inl (Nat.add_le_add_right ?_ _)
      simp only [step, deliveriesOf, hsame, Nat.le_refl]

/-! ### What an event does to the row -/

theorem step_lookup {row : TaskRow} (h : S.store.tasks.lookup id = some row) (e : Event) :
    ∃ row', (step S e).2.store.tasks.lookup id = some row' ∧
      (row' = row ∨ ∃ i h, e = .op i h ∧ RowStep id i.env row i.op (Tasks.step S.store i).1 row') := by
  rcases store_step S e with hsame | ⟨i, hi, hop⟩
  · exact ⟨row, hsame ▸ h, .inl rfl⟩
  · obtain ⟨row', hrow', hstep⟩ := step_row h i
    refine ⟨row', hi ▸ hrow', ?_⟩
    rcases hop with hop | ⟨hcreates, rfl⟩
    · exact .inl (hstep.of_creates hop)
    · exact .inr ⟨i, hcreates, rfl, hstep⟩

theorem step_lookup_none (h : S.store.tasks.lookup id = none) (e : Event) :
    (step S e).2.store.tasks.lookup id = none ∨
      ∃ (t : NewTask) (now : Int), (step S e).2.store.tasks.lookup id = some (t.row now) := by
  rcases store_step S e with hsame | ⟨i, hi, -⟩
  · exact .inl (hsame ▸ h)
  · rw [hi]
    exact (step_none h i).1

/-- **What an event does to the attempts**: a fresh token is one more, within the budget and before the
deadline, and otherwise there are as many as before. -/
theorem issues_step (S : System) (e : Event) (id : String) :
    (issues id (turn step S e) = true ∧ ∃ i h, e = .op i h ∧ (∃ worker lease, i.op = .claim id worker lease) ∧
      ∃ row row', S.store.tasks.lookup id = some row ∧ (step S e).2.store.tasks.lookup id = some row' ∧
        row'.attempt = row.attempt + 1 ∧ pastDeadline i.env.now row = false ∧ spent row = false) ∨
    (issues id (turn step S e) = false ∧ ∀ row, S.store.tasks.lookup id = some row →
      ∃ row', (step S e).2.store.tasks.lookup id = some row' ∧ row'.attempt = row.attempt) := by
  -- An event that is no claim of the task.
  have hother (hissues : issues id (turn step S e) = false)
      (hop : ∀ i h, e = .op i h → ∀ worker lease, i.op ≠ .claim id worker lease) :
      issues id (turn step S e) = false ∧ ∀ row, S.store.tasks.lookup id = some row →
        ∃ row', (step S e).2.store.tasks.lookup id = some row' ∧ row'.attempt = row.attempt := by
    refine ⟨hissues, fun row hrow => ?_⟩
    obtain ⟨row', hrow', rfl | ⟨i, h, he, hstep⟩⟩ := step_lookup hrow e
    · exact ⟨row', hrow', rfl⟩
    · exact ⟨row', hrow', hstep.attempt (hop i h he)⟩
  cases e with
  | call | advance | stop => exact .inr (hother rfl (by rintro i h ⟨⟩))
  | op i h =>
    by_cases hop : ∃ worker lease, i.op = .claim id worker lease
    · obtain ⟨env, op⟩ := i
      obtain ⟨worker, lease, rfl⟩ := hop
      have hissues : issues id (turn step S (.op ⟨env, .claim id worker lease⟩ h)) =
          match (S.store.claim env id worker lease).1 with
          | .ok _ => (S.store.tasks.lookup id).any fun row => !repeats row worker env.now
          | .error _ => false := by
        simp only [issues, turn, step, Tasks.step, Prod.map_fst]
        cases (S.store.claim env id worker lease).1 <;> simp
      rw [hissues]
      cases hrow : S.store.tasks.lookup id with
      | none =>
        refine .inr ⟨?_, by rintro row ⟨⟩⟩
        cases (S.store.claim env id worker lease).1 <;> rfl
      | some row =>
        rcases @claim_attempt S.store id worker row env hrow lease with
          ⟨l, hl, hrepeats, hdeadline, hspent, row', hrow', hattempt⟩ | ⟨hrepeats, row', hrow', hattempt⟩
        · rw [hl]
          refine .inl ⟨?_, _, h, rfl, ⟨worker, lease, rfl⟩, row, row', rfl, hrow', hattempt, hdeadline, hspent⟩
          rw [Option.any_some, hrepeats]
          rfl
        · refine .inr ⟨?_, ?_⟩
          · cases hresult : (S.store.claim env id worker lease).1 with
            | error err => rfl
            | ok l => simp only [Option.any_some, hrepeats l hresult, Bool.not_true]
          · rintro _ ⟨⟩
            exact ⟨row', hrow', hattempt⟩
    · refine .inr (hother ?_ fun i' h' he worker lease hclaim => ?_)
      · simp only [issues, turn]
        split
        · rename_i i' _ _ hinput _
          cases hinput
          split
          · rename_i id' worker lease hclaim
            refine decide_eq_false fun hid => hop ⟨worker, lease, ?_⟩
            rw [hclaim, hid.1]
          · rfl
        · rfl
      · cases he
        exact hop ⟨worker, lease, hclaim⟩

/-! ### Whole runs -/

theorem spent_eq_false {row : TaskRow} {m : Nat} (hm : 1 ≤ m) (hmax : row.maxAttempts = m) (h : spent row = false) :
    row.attempt < m := by
  simp only [spent, hmax, decide_eq_false_iff_not] at h
  omega

/-- What bounds the deliveries of a task. -/
structure Within (S : System) (id : String) (m : Nat) : Prop where
  absent : S.store.tasks.lookup id = none → S.given id = 0
  next : ∀ row, S.store.tasks.lookup id = some row → S.given id ≤ row.attempt + 1
  leased : ∀ row x, S.store.tasks.lookup id = some row → row.leaseExpiresAt = some x → 0 < x → S.given id ≤ row.attempt
  budget : S.given id ≤ m

theorem Within.step {m : Nat} (hm : 1 ≤ m) (h : Within S id m) (e : Event)
    (hfixed : FixedBudget [turn step S e] id m) (hrenews : RenewsInTime [turn step S e]) :
    Within (System.step S e).2 id m := by
  have hfixed := fun i hi he => hfixed _ (List.mem_singleton_self _) i hi he
  have hrenews := fun i hi he => hrenews _ (List.mem_singleton_self _) i hi he
  rcases given_step S e id with hle | ⟨hle, hnone, t, now, hnew⟩ | ⟨hle, hop, row, row', hrow, ⟨x, hx, hpos⟩, hspent, hrow', hattempt, hlease⟩
  · cases hrow : S.store.tasks.lookup id with
    | none =>
      have hzero : (System.step S e).2.given id = 0 := Nat.le_zero.mp (h.absent hrow ▸ hle)
      exact ⟨fun _ => hzero, fun _ _ => hzero ▸ Nat.zero_le _, fun _ _ _ _ _ => hzero ▸ Nat.zero_le _,
        hzero ▸ Nat.zero_le _⟩
    | some row =>
      obtain ⟨row', hrow', hstep⟩ := step_lookup hrow e
      have hlease : row.attempt ≤ row'.attempt ∧ ∀ x, row'.leaseExpiresAt = some x → 0 < x →
          row'.attempt = row.attempt + 1 ∨ ∃ y, row.leaseExpiresAt = some y ∧ 0 < y := by
        rcases hstep with rfl | ⟨i, hi, he, hstep⟩
        · exact ⟨Nat.le_refl _, fun x hx hpos => .inr ⟨x, hx, hpos⟩⟩
        · exact hstep.lease (hrenews i hi he)
      refine ⟨fun hnone => ?_, ?_, ?_, hle.trans h.budget⟩
      · rw [hrow'] at hnone
        cases hnone
      · intro r hr
        rw [hrow'] at hr
        cases hr
        exact hle.trans ((h.next row hrow).trans (Nat.succ_le_succ hlease.1))
      · intro r x hr hx hpos
        rw [hrow'] at hr
        cases hr
        rcases hlease.2 x hx hpos with hattempt | ⟨y, hy, hypos⟩
        · exact hattempt ▸ hle.trans (h.next row hrow)
        · exact hle.trans ((h.leased row y hrow hy hypos).trans hlease.1)
  · rw [h.absent hnone] at hle
    refine ⟨fun hnone => ?_, ?_, ?_, hle.trans hm⟩
    · rw [hnew] at hnone
      cases hnone
    · intro r hr
      exact hle.trans (Nat.le_add_left _ _)
    · intro r x hr hx
      rw [hnew] at hr
      cases hr
      cases hx
  · have hold := h.leased row x hrow hx hpos
    obtain ⟨i, hi, he, hop⟩ := hop
    have hlt := spent_eq_false hm (hfixed i hi he (.inl hop) row hrow) hspent
    refine ⟨fun hnone => ?_, ?_, ?_, hle.trans (Nat.succ_le_of_lt (hold.trans_lt hlt))⟩
    · rw [hrow'] at hnone
      cases hnone
    · intro r hr
      rw [hrow'] at hr
      cases hr
      exact hattempt ▸ hle.trans (Nat.succ_le_succ hold)
    · intro r y hr hy hypos
      rw [hrow'] at hr
      cases hr
      rw [hlease] at hy
      cases hy
      exact absurd hypos (Int.lt_irrefl 0)

/-- The fresh tokens are counted in the row. -/
def Counted (past : List (Turn System Event (Option Output))) (S : System) (id : String) (m : Nat) : Prop :=
  past.countP (issues id) ≤ m ∧ (S.store.tasks.lookup id = none → past.countP (issues id) = 0) ∧
    ∀ row, S.store.tasks.lookup id = some row → row.attempt = past.countP (issues id)

theorem Counted.step {past : List (Turn System Event (Option Output))} {m : Nat} (hm : 1 ≤ m) (h : Counted past S id m)
    (e : Event) (hfixed : FixedBudget [turn step S e] id m) :
    Counted (past ++ [turn step S e]) (System.step S e).2 id m := by
  obtain ⟨hle, hnone, hcount⟩ := h
  rw [Counted, List.countP_append, List.countP_singleton]
  rcases issues_step S e id with ⟨hissues, i, hi, he, hclaim, row, row', hrow, hrow', hattempt, -, hspent⟩ | ⟨hissues, hkeeps⟩
  · have hmax := hfixed _ (List.mem_singleton_self _) i hi he (.inr hclaim) row hrow
    have hlt := spent_eq_false hm hmax hspent
    rw [hissues, if_pos rfl, ← hcount row hrow, ← hattempt, hrow']
    refine ⟨hattempt ▸ hlt, by rintro ⟨⟩, ?_⟩
    rintro _ ⟨⟩
    rfl
  · rw [hissues, if_neg Bool.false_ne_true, Nat.add_zero]
    refine ⟨hle, ?_⟩
    cases hrow : S.store.tasks.lookup id with
    | none =>
      refine ⟨fun _ => hnone hrow, fun row hnew => ?_⟩
      rcases step_lookup_none hrow e with habsent | ⟨t, now, hsome⟩
      · rw [habsent] at hnew
        cases hnew
      · rw [hsome] at hnew
        cases hnew
        exact (hnone hrow).symm
    | some row =>
      obtain ⟨row', hrow', hattempt⟩ := hkeeps row hrow
      rw [hrow']
      refine ⟨by rintro ⟨⟩, ?_⟩
      rintro _ ⟨⟩
      exact hattempt.trans (hcount row hrow)

/-- **The retry budget**: if `max_attempts` of a new task is `m` whenever it is read, then its attempts are the
fresh tokens, of which there are at most `m`; it has at most `m` deliveries, unless a lease is renewed on
a clock that is before 1970; and no fresh token is issued at or after a positive deadline. -/
theorem retry_budget {s : Store} {m : Nat} {es : List Event} (hnew : s.tasks.lookup id = none)
    (hfree : deliveriesOf s id = []) (hm : 1 ≤ m) (hfixed : FixedBudget (turns step ⟨s, []⟩ es) id m) :
    let past := turns step ⟨s, []⟩ es
    let S := runs step ⟨s, []⟩ es
    (∀ row, S.store.tasks.lookup id = some row → row.attempt = past.countP (issues id)) ∧
      past.countP (issues id) ≤ m ∧
      (RenewsInTime past → (deliveriesOf S.store id).length ≤ m) ∧
      ∀ t ∈ past, issues id t = true → ∀ i h row d, t.input = .op i h → t.before.store.tasks.lookup id = some row →
        row.deadlineAt = some d → 0 < d → i.env.now < d := by
  intro past S
  have hcounted : Counted past S id m := by
    refine turns_induction (motive := fun past S => FixedBudget past id m → Counted past S id m) ?_ ?_ es hfixed
    · intro _
      refine ⟨Nat.zero_le _, fun _ => rfl, fun row hrow => ?_⟩
      rw [hnew] at hrow
      cases hrow
    · intro past S e ih hfixed
      have hparts := List.forall_mem_append.mp hfixed
      exact (ih hparts.1).step hm e hparts.2
  have hwithin (hrenews : RenewsInTime past) : Within S id m := by
    refine turns_induction (motive := fun past S => FixedBudget past id m → RenewsInTime past → Within S id m)
      ?_ ?_ es hfixed hrenews
    · intro _ _
      have hzero : given ⟨s, []⟩ id = 0 := by
        rw [given, hfree]
        rfl
      exact ⟨fun _ => hzero, fun _ _ => hzero ▸ Nat.zero_le _, fun _ _ _ _ _ => hzero ▸ Nat.zero_le _,
        hzero ▸ Nat.zero_le _⟩
    · intro past S e ih hfixed hrenews
      have hparts := List.forall_mem_append.mp hfixed
      have hclocks := List.forall_mem_append.mp hrenews
      exact (ih hparts.1 hclocks.1).step hm e hparts.2 hclocks.2
  refine ⟨hcounted.2.2, hcounted.1, fun hrenews => (Nat.le_add_right _ _).trans (hwithin hrenews).budget, ?_⟩
  intro t ht hissues i h row d hinput hrow hd hpos
  obtain ⟨S', e, rfl⟩ := exists_of_mem_turns ht
  rcases issues_step S' e id with ⟨-, i', h', he, -, row', -, hrow', -, -, hdeadline, -⟩ | ⟨hnot, -⟩
  · cases hinput.symm.trans he
    cases hrow.symm.trans hrow'
    simp only [pastDeadline, hd, Option.any_some, decide_eq_false_iff_not, not_and, not_le] at hdeadline
    exact hdeadline hpos
  · rw [hissues] at hnot
    cases hnot

/-- A new task whose budget is not set has the default one. -/
theorem fixedBudget_default {s : Store} {es : List Event} (hnew : s.tasks.lookup id = none)
    (hunset : ∀ e ∈ es, ∀ i h max, e = .op i h → i.op ≠ .setMaxAttempts id max) :
    FixedBudget (turns step ⟨s, []⟩ es) id 3 := by
  have hrun := @turns_induction _ _ _ step ⟨s, []⟩ (fun past S =>
    (∀ e ∈ past.map Turn.input, ∀ i h max, e = .op i h → i.op ≠ .setMaxAttempts id max) →
      FixedBudget past id 3 ∧ ∀ row, S.store.tasks.lookup id = some row → row.maxAttempts = 3) ?_ ?_ es
  · rw [map_input_turns] at hrun
    exact (hrun hunset).1
  · intro _
    refine ⟨fun t ht => absurd ht List.not_mem_nil, fun row hrow => ?_⟩
    rw [hnew] at hrow
    cases hrow
  · intro past S e ih hunset
    rw [List.map_append] at hunset
    obtain ⟨hearlier, hlast⟩ := List.forall_mem_append.mp hunset
    obtain ⟨hfixed, hbudget⟩ := ih hearlier
    refine ⟨List.forall_mem_append.mpr ⟨hfixed, List.forall_mem_singleton.mpr fun _ _ _ _ => hbudget⟩, ?_⟩
    intro row' hrow'
    cases hrow : S.store.tasks.lookup id with
    | none =>
      rcases step_lookup_none hrow e with habsent | ⟨t, now, hsome⟩
      · rw [habsent] at hrow'
        cases hrow'
      · rw [hsome] at hrow'
        cases hrow'
        rfl
    | some row =>
      obtain ⟨r, hr, hstep⟩ := step_lookup hrow e
      rw [hr] at hrow'
      cases hrow'
      rcases hstep with rfl | ⟨i, h, he, hstep⟩
      · exact hbudget _ hrow
      · refine (hstep.maxAttempts_eq fun max => ?_).trans (hbudget row hrow)
        exact hlast e (List.mem_singleton_self _) i h max he

/-! A task that is offered again. -/
namespace Again

/-- The task is created, statement by statement, and claimed for a second, which runs out. -/
def lapse : List Event :=
  [.call .createFromRemote Errand.order, .advance 0 (Errand.moment 1 ""), .advance 0 (Errand.moment 1 ""),
    .advance 0 (Errand.moment 1 ""), .advance 0 (Errand.moment 1 ""),
    .op ⟨Errand.moment 2 "k1", .claim "errand" "did:worker" 1000000000⟩ rfl,
    .op ⟨Errand.moment 2000 "", .requeueExpired⟩ rfl]

/-- The lease that ended in 1970 is renewed on a clock that is before, and runs out. -/
def revive : List Event :=
  [.op ⟨Errand.moment 3000 "", .updateStatus "errand" .working "" []⟩ rfl,
    .op ⟨Errand.moment (-1) "", .renewLease "errand" "" "" 10000000000⟩ rfl,
    .op ⟨Errand.moment 20000 "", .requeueExpired⟩ rfl]

theorem unset : ∀ e ∈ lapse ++ revive ++ revive, ∀ i h max, e = .op i h → i.op ≠ .setMaxAttempts "errand" max := by
  simp only [lapse, revive, List.cons_append, List.nil_append, List.forall_mem_cons, List.not_mem_nil,
    reduceCtorEq, IsEmpty.forall_iff, implies_true, and_true, true_and]
  refine ⟨?_, ?_, ?_, ?_, ?_, ?_, ?_, ?_⟩ <;> (rintro i h max ⟨⟩ ⟨⟩)

/-- No lease is renewed. -/
theorem renewsInTime : RenewsInTime (turns step ⟨.empty, []⟩ lapse) := by
  intro t ht i h hinput hrenews
  have hmem : Event.op i h ∈ lapse := by
    rw [← hinput, ← @map_input_turns _ _ _ step ⟨.empty, []⟩ lapse]
    exact List.mem_map_of_mem ht
  simp only [lapse, List.mem_cons, List.not_mem_nil, or_false, reduceCtorEq, false_or] at hmem
  obtain ⟨id, worker, token, lease, hop⟩ := hrenews
  rcases hmem with hmem | hmem <;> cases hmem <;> cases hop

end Again

open Again in
theorem retry_budget_lapse :
    let past := turns step ⟨.empty, []⟩ lapse
    let S := runs step ⟨.empty, []⟩ lapse
    ((deliveriesOf S.store "errand").length = 2 ∧ past.countP (issues "errand") = 1 ∧ RenewsInTime past) ∧
      (∀ row, S.store.tasks.lookup "errand" = some row → row.attempt = past.countP (issues "errand")) ∧
      past.countP (issues "errand") ≤ 3 ∧ (RenewsInTime past → (deliveriesOf S.store "errand").length ≤ 3) ∧
      ∀ t ∈ past, issues "errand" t = true → ∀ i h row d, t.input = .op i h →
        t.before.store.tasks.lookup "errand" = some row → row.deadlineAt = some d → 0 < d → i.env.now < d := by
  refine ⟨⟨by decide, by decide, renewsInTime⟩, retry_budget rfl rfl (by decide) (fixedBudget_default rfl ?_)⟩
  exact fun e he => unset e (List.mem_append_left _ (List.mem_append_left _ he))

open Again in
/-- The budget is three attempts, one is made, and there are four deliveries. -/
theorem deliveries_exceed_budget : ∃ es : List Event, FixedBudget (turns step ⟨.empty, []⟩ es) "errand" 3 ∧
    (turns step ⟨.empty, []⟩ es).countP (issues "errand") = 1 ∧
    (deliveriesOf (runs step ⟨.empty, []⟩ es).store "errand").length = 4 :=
  ⟨lapse ++ revive ++ revive, fixedBudget_default rfl unset, by decide, by decide⟩

end System

end MoltMesh.Tasks

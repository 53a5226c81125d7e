import MoltMesh.Outbox.Store

/-!
# What becomes of a message in the outbox

`RowStep` lists what an event can do to a row.  The rest is bookkeeping: the messages `flush` works on
are those whose rows are being processed, and a row that has not been delivered counts no more attempts
than deliveries that have failed (`Sound`).
-/

namespace MoltMesh.Outbox

open MoltMesh.Lib

variable {row' : OutboxRow} {e : Event} {p : OutboxRow → Bool} {f : OutboxRow → OutboxRow}
  {q : OutboxRow → Prop} {fails : Migration → Option String} {item : Pending} {db : Db}

/-! ## Rows -/

/-- What an event does to a row. -/
inductive RowStep (M : Machine) (row : OutboxRow) : Event → OutboxRow → Prop
  | same {e : Event} : RowStep M row e row
  | expired {now : Int} {env : Env} (hprocess : M.process = .expiring now) (hpending : row.status = .pending)
    (hdurable : row.durable = false) : RowStep M row (.next env) { row with status := .expired }
  | reclaimed {now : Int} {env : Env} (hprocess : M.process = .reclaiming now) (hprocessing : row.status = .processing) :
    RowStep M row (.next env) { row with status := .pending }
  | claimed {now : Int} {env : Env} (hprocess : M.process = .claiming now) (hpending : row.status = .pending) :
    RowStep M row (.next env) { row with status := .processing, lastAttempt := some now }
  | quarantined {item : Pending} {items : List Pending} {env : Env} (hprocess : M.process = .delivering (item :: items))
    (hpayload : item.payload = none) (hid : row.id = item.id) :
    RowStep M row (.next env) { row with status := .failed, attempts := row.attempts + 1, lastAttempt := some env.now }
  | finished {item : Pending} {outcome : Option String} {items : List Pending} {env : Env}
    (hprocess : M.process = .finishing item outcome items) (hid : row.id = item.id) :
    RowStep M row (.next env)
      { row with status := statusAfter item outcome, attempts := item.attempts + 1, lastAttempt := some env.now }
  | marked {fails : Option String} (hprocess : M.process = .idle) :
    RowStep M row (.markDelivered row.id fails) { row with status := .delivered }
  | reset {fails : Migration → Option String} (hprocess : M.process = .down) (hprocessing : row.status = .processing) :
    RowStep M row (.restart fails) { row with status := .pending }
  /-- A message that should be durable and is not, before or after the reset. -/
  | backfilled {fails : Migration → Option String} {row₁ : OutboxRow} (hprocess : M.process = .down)
    (hdurable : row.durable = false) (hkind : ∃ msg, row.payload = some msg ∧ durableKind msg.kind = true)
    (hsame : row₁.payload = row.payload) : RowStep M row (.restart fails) (Outbox.backfilled row₁)

/-- No event writes the message of a row. -/
theorem RowStep.payload {M : Machine} {row : OutboxRow} (h : RowStep M row e row') :
    row'.payload = row.payload := by
  cases h with
  | backfilled _ _ _ hsame => exact hsame
  | _ => rfl

section Statements

variable {db : Db} {id : String} {row : OutboxRow}

/-- What a statement does to a row is seen at its id. -/
theorem lookup_updateWhere {hf : ∀ r, (f r).id = r.id}
    (h : db.lookup id = some row) (hsame : p row = false → q row) (hset : p row = true → q (f row)) :
    ∃ row', (db.updateWhere p f hf).lookup id = some row' ∧ q row' := by
  refine ⟨if p row then f row else row, by rw [Table.lookup_updateWhere, h]; rfl, ?_⟩
  cases hp : p row with
  | false => exact hsame hp
  | true => exact hset hp

theorem lookup_updateWhere_none {hf : ∀ r, (f r).id = r.id}
    (h : db.lookup id = none) : (db.updateWhere p f hf).lookup id = none := by
  rw [Table.lookup_updateWhere, h, Option.map_none]

/-- A statement whose error is logged. -/
theorem lookup_exec {fails : Option String}
    {hf : ∀ r, (f r).id = r.id} (h : db.lookup id = some row) (hsame : q row)
    (hset : p row = true → q (f row)) :
    ∃ row', (exec fails db (db.updateWhere p f hf)).lookup id = some row' ∧ q row' := by
  unfold exec
  split
  · exact ⟨row, h, hsame⟩
  · exact lookup_updateWhere h (fun _ => hsame) hset

theorem lookup_exec_none {fails : Option String} {db' : Db} (h : db.lookup id = none) (h' : db'.lookup id = none) :
    (exec fails db db').lookup id = none := by
  unfold exec
  split
  · exact h
  · exact h'

/-- What the backfill does to a row keeps what a backfill of that row keeps. -/
theorem lookup_backfill {ids : List String}
    (h : db.lookup id = some row) (hq : q row) (hback : id ∈ ids → ∀ r, q r → q (backfilled r)) :
    ∃ row', (backfill fails ids db).2.lookup id = some row' ∧ q row' := by
  induction ids generalizing db row with
  | nil => exact ⟨row, h, hq⟩
  | cons k ids ih =>
    unfold backfill
    split
    · exact ⟨row, h, hq⟩
    · have hid := (Table.lookup_eq_some.mp h).2
      obtain ⟨row₁, hrow₁, hq₁⟩ : ∃ row₁, (db.updateWhere (fun r => r.id = k) backfilled fun _ => rfl).lookup id =
          some row₁ ∧ q row₁ := by
        refine lookup_updateWhere h (fun _ => hq) fun hp => hback ?_ row hq
        rw [← hid, of_decide_eq_true hp]
        exact List.mem_cons_self
      exact ih hrow₁ hq₁ fun hmem => hback (List.mem_cons_of_mem _ hmem)

theorem lookup_backfill_none {ids : List String} (h : db.lookup id = none) :
    (backfill fails ids db).2.lookup id = none := by
  induction ids generalizing db with
  | nil => exact h
  | cons k ids ih =>
    unfold backfill
    split
    · exact h
    · exact ih (lookup_updateWhere_none h)

theorem lookup_reset_none (h : db.lookup id = none) : (reset db).lookup id = none := by
  unfold reset
  exact lookup_updateWhere_none h

theorem lookup_reset (h : db.lookup id = some row) : ∃ row', (reset db).lookup id = some row' ∧
    (row.status ≠ .processing ∧ row' = row ∨ row.status = .processing ∧ row' = { row with status := .pending }) :=
  lookup_updateWhere h (fun hp => .inl ⟨of_decide_eq_false hp, rfl⟩) fun hp => .inr ⟨of_decide_eq_true hp, rfl⟩

/-- The rows that are picked are pending, and their ids are distinct. -/
theorem mem_picked {rank : String → Int} {before : Int} (h : row ∈ picked rank before db) :
    row ∈ db.rows ∧ row.status = .pending := by
  have hmem := List.mem_of_mem_take h
  rw [mem_orderBy, Table.mem_select, decide_eq_true_eq] at hmem
  exact ⟨hmem.1, hmem.2.1⟩

theorem nodup_picked (rank : String → Int) (before : Int) (db : Db) :
    ((picked rank before db).map OutboxRow.id).Nodup := by
  refine ((List.take_sublist _ _).map _).nodup ?_
  exact ((perm_orderBy _ _).map _).nodup_iff.mpr (db.nodup_map_select _)

end Statements

namespace Machine

variable {M : Machine} {id : String} {row : OutboxRow}

theorem migrate_row (h : M.db.lookup id = some row) (hdown : M.process = .down) (fails : Migration → Option String) :
    ∃ row', (migrate fails M.db).2.lookup id = some row' ∧ RowStep M row (.restart fails) row' := by
  have hid := (Table.lookup_eq_some.mp h).2
  obtain ⟨row₁, hrow₁, hreset⟩ := lookup_reset h
  have hstep : RowStep M row (.restart fails) row₁ := by
    rcases hreset with ⟨-, rfl⟩ | ⟨hprocessing, rfl⟩
    · exact .same
    · exact .reset hdown hprocessing
  unfold migrate
  split
  · exact ⟨row, h, .same⟩
  split
  · exact ⟨row, h, .same⟩
  split
  · exact ⟨row₁, hrow₁, hstep⟩
  · refine lookup_backfill hrow₁ hstep fun hmem r hr => ?_
    obtain ⟨r', hr', hrid⟩ := List.mem_map.mp hmem
    rw [Table.mem_select, decide_eq_true_eq] at hr'
    obtain ⟨hr', hdurable, hkind⟩ := hr'
    obtain rfl := Option.some.inj (hrow₁.symm.trans (Table.lookup_eq_some.mpr ⟨hr', hrid⟩))
    rw [Option.any_eq_true] at hkind
    rcases hreset with ⟨-, rfl⟩ | ⟨-, rfl⟩ <;> exact .backfilled hdown hdurable hkind hr.payload

/-- What was being processed is pending once the process is there again. -/
theorem restart_row (h : M.db.lookup id = some row) (hdown : M.process = .down) (hprocessing : row.status = .processing)
    (hidle : (M.step (.restart fails)).2.process = .idle) :
    ∃ row', (M.step (.restart fails)).2.db.lookup id = some row' ∧ row'.status = .pending := by
  obtain ⟨row₁, hrow₁, hreset⟩ := lookup_reset h
  have hpending : row₁.status = .pending := by
    rcases hreset with ⟨hnot, -⟩ | ⟨-, rfl⟩
    · exact absurd hprocessing hnot
    · rfl
  have hback : ∃ row', (backfill fails (wakeIDs (reset M.db)) (reset M.db)).2.lookup id = some row' ∧
      row'.status = .pending := by
    refine lookup_backfill hrow₁ hpending fun _ r hr => ?_
    simp only [backfilled, hr, reduceCtorEq, or_self, if_false]
  have hmigrate : ∀ result, migrate fails M.db = (.ok (), result) →
      result = (backfill fails (wakeIDs (reset M.db)) (reset M.db)).2 := by
    intro result hresult
    unfold migrate at hresult
    split at hresult
    · cases hresult
    split at hresult
    · cases hresult
    split at hresult
    · cases hresult
    · rw [hresult]
  simp only [step, hdown] at hidle ⊢
  generalize migrate fails M.db = result at hidle hmigrate ⊢
  rcases result with ⟨_ | _, db⟩
  · cases hidle
  · dsimp only
    rw [hmigrate db rfl]
    exact hback

theorem next_row (h : M.db.lookup id = some row) (env : Env) :
    ∃ row', (M.next env).2.db.lookup id = some row' ∧ RowStep M row (.next env) row' := by
  unfold next
  split
  · exact ⟨row, h, .same⟩
  · exact ⟨row, h, .same⟩
  · rename_i now hprocess
    refine lookup_exec h .same fun hp => ?_
    rw [decide_eq_true_eq] at hp
    exact .expired hprocess hp.1 hp.2.1
  · rename_i now hprocess
    refine lookup_exec h .same fun hp => ?_
    rw [decide_eq_true_eq] at hp
    exact .reclaimed hprocess hp.1
  · rename_i now hprocess
    split
    · exact ⟨row, h, .same⟩
    · dsimp only [claim]
      refine lookup_updateWhere h (fun _ => .same) fun hp => ?_
      rw [decide_eq_true_eq] at hp
      obtain ⟨r, hr, hrid⟩ := List.mem_map.mp hp
      have heq := Table.eq_of_key_eq (mem_picked hr).1 (Table.lookup_eq_some.mp h).1 hrid
      exact .claimed hprocess (heq ▸ (mem_picked hr).2)
  · exact ⟨row, h, .same⟩
  · rename_i item items hprocess
    split
    · rename_i hpayload
      exact lookup_exec h .same fun hp => .quarantined hprocess hpayload (of_decide_eq_true hp)
    · exact ⟨row, h, .same⟩
  · rename_i item outcome items hprocess
    exact lookup_exec h .same fun hp => .finished hprocess (of_decide_eq_true hp)

/-- **What an event does to a row.** -/
theorem step_row (h : M.db.lookup id = some row) (e : Event) :
    ∃ row', (M.step e).2.db.lookup id = some row' ∧ RowStep M row e row' := by
  cases e with
  | enqueue ownerDID msg now later fails =>
    refine ⟨row, ?_, .same⟩
    simp only [step, enqueue]
    split
    · exact h
    split
    · exact h
    · exact (Table.lookup_insertOrIgnore _ _ _).trans (by rw [h, Option.some_or])
  | flush now =>
    refine ⟨row, ?_, .same⟩
    simp only [step]
    split <;> exact h
  | next env => exact next_row h env
  | markDelivered k fails =>
    simp only [step]
    split
    · rename_i hprocess
      refine lookup_exec h .same fun hp => ?_
      obtain rfl := of_decide_eq_true hp
      exact .marked hprocess
    · exact ⟨row, h, .same⟩
  | stop => exact ⟨row, h, .same⟩
  | restart fails =>
    simp only [step]
    split
    · rename_i hdown
      have hmigrate := migrate_row h hdown fails
      generalize migrate fails M.db = result at hmigrate
      rcases result with ⟨_ | _, db⟩ <;> exact hmigrate
    · exact ⟨row, h, .same⟩

/-- A row that is not there can only be one that is enqueued. -/
theorem step_none (h : M.db.lookup id = none) (e : Event) : (M.step e).2.db.lookup id = none ∨
    ∃ ownerDID msg now later, msg.id = id ∧ (M.step e).2.db.lookup id = some (newRow ownerDID msg now later) := by
  cases e with
  | enqueue ownerDID msg now later fails =>
    simp only [step, enqueue]
    split
    · exact .inl h
    split
    · exact .inl h
    · dsimp only
      rw [Table.lookup_insertOrIgnore, h, Option.none_or]
      split
      · exact .inr ⟨ownerDID, msg, now, later, ‹_›, rfl⟩
      · exact .inl rfl
  | flush now =>
    simp only [step]
    split <;> exact .inl h
  | next env =>
    refine .inl ?_
    simp only [step, next, claim]
    repeat' split
    all_goals first
      | exact h
      | exact lookup_exec_none h (lookup_updateWhere_none h)
      | (dsimp only; exact lookup_updateWhere_none h)
  | markDelivered k fails =>
    simp only [step]
    split
    · exact .inl (lookup_exec_none h (lookup_updateWhere_none h))
    · exact .inl h
  | stop => exact .inl h
  | restart fails =>
    refine .inl ?_
    have hmigrate : (migrate fails M.db).2.lookup id = none := by
      unfold migrate
      split
      · exact h
      split
      · exact h
      split
      · exact lookup_reset_none h
      · exact lookup_backfill_none (lookup_reset_none h)
    simp only [step]
    split
    · generalize migrate fails M.db = result at hmigrate
      rcases result with ⟨_ | _, db⟩ <;> exact hmigrate
    · exact h

/-! ## The invariant -/

/-- A `deliver` of the message returned an error. -/
def failure (id : String) (t : Turn Machine Event (Option Delivery)) : Bool :=
  t.output.any fun d => d.msg.id = id ∧ d.outcome.isSome

/-- A `deliver` of the message returned `nil`, or `MarkDelivered` was called. -/
def success (id : String) (t : Turn Machine Event (Option Delivery)) : Prop :=
  (∃ d, t.output = some d ∧ d.msg.id = id ∧ d.outcome = none) ∨ ∃ fails, t.input = .markDelivered id fails

/-- What is known of a row. -/
structure Kept (past : List (Turn Machine Event (Option Delivery))) (row : OutboxRow) : Prop where
  message : ∃ msg, row.payload = some msg ∧ msg.id = row.id ∧ row.durable = durableKind msg.kind
  intact : row.status ≠ .failed
  durable : row.durable = true → row.status ≠ .expired ∧ row.status ≠ .deadLetter
  delivered : row.status = .delivered → ∃ t ∈ past, success row.id t
  attempts : row.status ≠ .delivered → row.attempts ≤ past.countP (failure row.id)
  dead : row.status = .deadLetter → maxAttempts ≤ past.countP (failure row.id)

/-- A message `flush` works on. -/
def Held (db : Db) (item : Pending) : Prop :=
  ∃ row, db.lookup item.id = some row ∧ row.status = .processing ∧ scan row = item

/-- What is known of the messages `flush` works on. -/
def Working (past : List (Turn Machine Event (Option Delivery))) (db : Db) : Process → Prop
  | .delivering items => (items.map Pending.id).Nodup ∧ ∀ item ∈ items, Held db item
  | .finishing item outcome items => ((item :: items).map Pending.id).Nodup ∧ (∀ i ∈ item :: items, Held db i) ∧
    match outcome with
    | none => ∃ t ∈ past, success item.id t
    | some _ => item.attempts + 1 ≤ past.countP (failure item.id)
  | _ => True

structure Sound (past : List (Turn Machine Event (Option Delivery))) (M : Machine) : Prop where
  rows : ∀ id row, M.db.lookup id = some row → Kept past row
  working : Working past M.db M.process

variable {past : List (Turn Machine Event (Option Delivery))} {t : Turn Machine Event (Option Delivery)}

theorem countP_le_concat : past.countP (failure id) ≤ (past ++ [t]).countP (failure id) := by
  rw [List.countP_append]
  exact Nat.le_add_right _ _

theorem Kept.concat (h : Kept past row) : Kept (past ++ [t]) row where
  message := h.message
  intact := h.intact
  durable := h.durable
  delivered hstatus :=
    let ⟨t', ht', hsuccess⟩ := h.delivered hstatus
    ⟨t', List.mem_append_left _ ht', hsuccess⟩
  attempts hstatus := (h.attempts hstatus).trans countP_le_concat
  dead hstatus := (h.dead hstatus).trans countP_le_concat

theorem kept_newRow (ownerDID : String) (msg : Message) (now later : Int) :
    Kept past (newRow ownerDID msg now later) where
  message := ⟨msg, rfl, rfl, rfl⟩
  intact := by rintro ⟨⟩
  durable _ := ⟨by rintro ⟨⟩, by rintro ⟨⟩⟩
  delivered := by rintro ⟨⟩
  attempts _ := Nat.zero_le _
  dead := by rintro ⟨⟩

/-- A row that is pending or processing, with the attempts it had. -/
theorem Kept.waiting (h : Kept past row) (hid : row'.id = row.id) (hpayload : row'.payload = row.payload)
    (hdurable : row'.durable = row.durable) (hattempts : row'.attempts = row.attempts) (hold : row.status ≠ .delivered)
    (hnew : row'.status = .pending ∨ row'.status = .processing) : Kept past row' where
  message := by
    rw [hpayload, hid, hdurable]
    exact h.message
  intact hstatus := by rcases hnew with hnew | hnew <;> (rw [hstatus] at hnew; cases hnew)
  durable _ := by rcases hnew with hnew | hnew <;> (rw [hnew]; exact ⟨by rintro ⟨⟩, by rintro ⟨⟩⟩)
  delivered hstatus := by rcases hnew with hnew | hnew <;> (rw [hstatus] at hnew; cases hnew)
  attempts _ := by
    rw [hattempts, hid]
    exact h.attempts hold
  dead hstatus := by rcases hnew with hnew | hnew <;> (rw [hstatus] at hnew; cases hnew)

/-- A message `flush` works on is one of the table. -/
theorem Sound.payload (h : Sound past M) (hheld : Held M.db item) :
    ∃ msg, item.payload = some msg ∧ msg.id = item.id := by
  obtain ⟨row, hrow, -, rfl⟩ := hheld
  obtain ⟨msg, hmsg, hid, -⟩ := (h.rows _ row hrow).message
  exact ⟨msg, hmsg, hid⟩

/-- **A step keeps what is known of a row.** -/
theorem Sound.kept (h : Sound past M) (hrow : M.db.lookup id = some row)
    (hstep : RowStep M row e row') : Kept (past ++ [turn step M e]) row' := by
  have hkept := (h.rows id row hrow).concat (t := turn step M e)
  have hworking := h.working
  cases hstep with
  | same => exact hkept
  | expired _ hpending hdurable =>
    refine ⟨hkept.message, by rintro ⟨⟩, ?_, by rintro ⟨⟩, ?_, by rintro ⟨⟩⟩
    · intro hd
      rw [hdurable] at hd
      cases hd
    · intro _
      exact hkept.attempts (by rw [hpending]; rintro ⟨⟩)
  | reclaimed _ hprocessing =>
    exact hkept.waiting rfl rfl rfl rfl (by rw [hprocessing]; rintro ⟨⟩) (.inl rfl)
  | claimed _ hpending => exact hkept.waiting rfl rfl rfl rfl (by rw [hpending]; rintro ⟨⟩) (.inr rfl)
  | quarantined hprocess hpayload =>
    -- What has been marshalled decodes.
    rw [hprocess] at hworking
    obtain ⟨msg, hmsg, -⟩ := h.payload (hworking.2 _ List.mem_cons_self)
    rw [hpayload] at hmsg
    cases hmsg
  | @finished item outcome items env hprocess hid =>
    rw [hprocess] at hworking
    obtain ⟨-, hheld, houtcome⟩ := hworking
    obtain ⟨r, hr, -, hscan⟩ := hheld item List.mem_cons_self
    have heq : r = row := by
      rw [← hid, (Table.lookup_eq_some.mp hrow).2, hrow] at hr
      exact (Option.some.inj hr).symm
    subst heq
    have hdurable : item.durable = r.durable := congrArg Pending.durable hscan.symm
    cases outcome with
    | none =>
      obtain ⟨t', ht', hsuccess⟩ := houtcome
      refine ⟨hkept.message, by rintro ⟨⟩, fun _ => ⟨by rintro ⟨⟩, by rintro ⟨⟩⟩, fun _ => ?_, fun hd => absurd rfl hd,
        by rintro ⟨⟩⟩
      exact ⟨t', List.mem_append_left _ ht', hid ▸ hsuccess⟩
    | some err =>
      have hcount : item.attempts + 1 ≤ (past ++ [turn step M (.next env)]).countP (failure r.id) :=
        hid ▸ houtcome.trans countP_le_concat
      by_cases hspent : item.durable = false ∧ maxAttempts ≤ item.attempts + 1
      · simp only [statusAfter, if_pos hspent]
        refine ⟨hkept.message, by rintro ⟨⟩, fun hd => ?_, by rintro ⟨⟩, fun _ => hcount, fun _ => hspent.2.trans hcount⟩
        have hd : r.durable = true := hd
        rw [← hdurable, hspent.1] at hd
        cases hd
      · simp only [statusAfter, if_neg hspent]
        exact ⟨hkept.message, by rintro ⟨⟩, fun _ => ⟨by rintro ⟨⟩, by rintro ⟨⟩⟩, by rintro ⟨⟩, fun _ => hcount,
          by rintro ⟨⟩⟩
  | marked =>
    refine ⟨hkept.message, by rintro ⟨⟩, fun _ => ⟨by rintro ⟨⟩, by rintro ⟨⟩⟩, fun _ => ?_, fun hd => absurd rfl hd,
      by rintro ⟨⟩⟩
    exact ⟨_, List.mem_append_right _ (List.mem_singleton_self _), .inr ⟨_, rfl⟩⟩
  | reset _ hprocessing => exact hkept.waiting rfl rfl rfl rfl (by rw [hprocessing]; rintro ⟨⟩) (.inl rfl)
  | backfilled _ hdurable hkind =>
    -- The column agrees with the kind.
    obtain ⟨msg, hmsg, hkind⟩ := hkind
    obtain ⟨msg', hmsg', -, heq⟩ := hkept.message
    rw [hmsg] at hmsg'
    cases hmsg'
    rw [hdurable, hkind] at heq
    cases heq

/-- A message keeps being worked on while the row is not written. -/
theorem Held.of_lookup {db' : Db} (h : Held db item) (hsame : db'.lookup item.id = db.lookup item.id) :
    Held db' item := by
  obtain ⟨row, hrow, hrest⟩ := h
  exact ⟨row, hsame.trans hrow, hrest⟩

theorem lookup_finish_of_ne {fails : Option String} {now : Int} {outcome : Option String}
    (h : id ≠ item.id) : (exec fails db (finish now item outcome db)).lookup id = db.lookup id := by
  unfold exec
  split
  · rfl
  · cases hrow : db.lookup id with
    | none => exact lookup_updateWhere_none hrow
    | some row =>
      obtain ⟨row', hrow', rfl⟩ : ∃ row', (finish now item outcome db).lookup id = some row' ∧ row' = row := by
        refine lookup_updateWhere hrow (fun _ => rfl) fun hp => ?_
        have hid := of_decide_eq_true hp
        rw [(Table.lookup_eq_some.mp hrow).2] at hid
        exact absurd hid h
      exact hrow'

/-- The rows that are claimed are being processed. -/
theorem held_of_picked {rank : String → Int} {before now : Int} (h : row ∈ picked rank before db) :
    Held (claim now ((picked rank before db).map OutboxRow.id) db) (scan row) := by
  have hrow : db.lookup row.id = some row := Table.lookup_eq_some.mpr ⟨(mem_picked h).1, rfl⟩
  unfold claim
  refine lookup_updateWhere hrow (fun hp => ?_) fun _ => ⟨rfl, rfl⟩
  exact absurd (List.mem_map_of_mem h) (of_decide_eq_false hp)

theorem Working.concat {process : Process} (h : Working past db process) : Working (past ++ [t]) db process := by
  cases process with
  | finishing item outcome items =>
    obtain ⟨hnodup, hheld, houtcome⟩ := h
    refine ⟨hnodup, hheld, ?_⟩
    cases outcome with
    | none =>
      obtain ⟨t', ht', hsuccess⟩ := houtcome
      exact ⟨t', List.mem_append_left _ ht', hsuccess⟩
    | some err => exact Nat.le_trans houtcome countP_le_concat
  | _ => exact h

/-- The rows `flush` works on stay as they are while others are inserted. -/
theorem Working.of_lookup {db' : Db} {process : Process} (h : Working past db process)
    (hsame : ∀ id row, db.lookup id = some row → db'.lookup id = some row) : Working past db' process := by
  have hheld {item : Pending} (hitem : Held db item) : Held db' item := by
    obtain ⟨row, hrow, hrest⟩ := hitem
    exact ⟨row, hsame _ _ hrow, hrest⟩
  cases process with
  | delivering items => exact ⟨h.1, fun item hitem => hheld (h.2 item hitem)⟩
  | finishing item outcome items => exact ⟨h.1, fun i hi => hheld (h.2.1 i hi), h.2.2⟩
  | _ => exact h

/-- **A step keeps what is known of the messages `flush` works on.** -/
theorem Sound.next (h : Sound past M) (env : Env) :
    Working (past ++ [turn step M (.next env)]) (M.next env).2.db (M.next env).2.process := by
  have hworking := h.working
  unfold Machine.next
  split
  · rename_i hprocess
    rw [hprocess]
    trivial
  · rename_i hprocess
    rw [hprocess]
    trivial
  · trivial
  · trivial
  · split
    · trivial
    · dsimp only
      generalize hrows : picked env.rank (env.now - retryBaseDelay) M.db = rows
      refine ⟨?_, fun item hitem => ?_⟩
      · have hids : ((rows.filter fun r => env.scans r.id).map scan).map Pending.id =
            (rows.filter fun r => env.scans r.id).map OutboxRow.id := List.map_map
        rw [hids, ← hrows]
        exact (List.filter_sublist.map _).nodup (nodup_picked _ _ _)
      · obtain ⟨row, hrow, rfl⟩ := List.mem_map.mp hitem
        rw [← hrows] at hrow ⊢
        exact held_of_picked (List.mem_of_mem_filter hrow)
  · trivial
  · rename_i item items hprocess
    rw [hprocess] at hworking
    obtain ⟨hnodup, hheld⟩ := hworking
    obtain ⟨msg, hmsg, hid⟩ := h.payload (hheld item List.mem_cons_self)
    have houtput : (turn step M (.next env)).output = some ⟨msg, env.outcome⟩ := by
      simp only [turn, step, Machine.next, hprocess, hmsg]
    rw [hmsg]
    refine ⟨hnodup, hheld, ?_⟩
    split
    · rename_i hnone
      exact ⟨_, List.mem_append_right _ (List.mem_singleton_self _), .inl ⟨_, houtput, hid, hnone⟩⟩
    · rename_i err hsome
      have hfailure : failure item.id (turn step M (.next env)) = true := by
        simp only [failure, houtput, Option.any_some, hid, hsome, Option.isSome_some, and_self, decide_true]
      obtain ⟨row, hrow, hprocessing, rfl⟩ := hheld item List.mem_cons_self
      have hattempts := (h.rows _ row hrow).attempts (by rw [hprocessing]; rintro ⟨⟩)
      rw [List.countP_append, List.countP_singleton, if_pos hfailure]
      exact Nat.succ_le_succ hattempts
  · rename_i item outcome items hprocess
    rw [hprocess] at hworking
    obtain ⟨hnodup, hheld, -⟩ := hworking
    rw [List.map_cons, List.nodup_cons] at hnodup
    refine ⟨hnodup.2, fun i hi => (hheld i (List.mem_cons_of_mem _ hi)).of_lookup (lookup_finish_of_ne fun heq => ?_)⟩
    exact hnodup.1 (heq ▸ List.mem_map_of_mem hi)

theorem Sound.step (h : Sound past M) (e : Event) : Sound (past ++ [turn step M e]) (M.step e).2 where
  rows id row' hrow' := by
    cases hrow : M.db.lookup id with
    | none =>
      rcases step_none hrow e with hnone | ⟨ownerDID, msg, now, later, -, hnew⟩
      · rw [hnone] at hrow'
        cases hrow'
      · rw [hnew] at hrow'
        cases hrow'
        exact kept_newRow ownerDID msg now later
    | some row =>
      obtain ⟨r, hr, hstep⟩ := step_row hrow e
      rw [hr] at hrow'
      cases hrow'
      exact h.kept hrow hstep
  working := by
    have hworking := h.working.concat (t := turn Machine.step M e)
    cases e with
    | enqueue ownerDID msg now later fails =>
      simp only [Machine.step, enqueue]
      split
      · exact hworking
      split
      · exact hworking
      · refine hworking.of_lookup fun id row hrow => ?_
        rw [Table.lookup_insertOrIgnore, hrow, Option.some_or]
    | flush now =>
      simp only [Machine.step]
      split
      · trivial
      · exact hworking
    | next env => exact h.next env
    | markDelivered id fails =>
      simp only [Machine.step]
      split
      · rename_i hprocess
        rw [hprocess]
        trivial
      · exact hworking
    | stop => trivial
    | restart fails =>
      simp only [Machine.step]
      split
      · rename_i hdown
        split
        · rw [hdown]
          trivial
        · trivial
      · exact hworking

/-! ## Whole runs -/

/-- A message `flush` works on has not been delivered. -/
theorem Held.not_delivered (hheld : Held M.db item) (hid : row.id = item.id)
    (hrow : M.db.lookup id = some row) : row.status ≠ .delivered := by
  obtain ⟨r, hr, hprocessing, -⟩ := hheld
  rw [← hid, (Table.lookup_eq_some.mp hrow).2, hrow] at hr
  obtain rfl := Option.some.inj hr
  rw [hprocessing]
  rintro ⟨⟩

/-- A step does not take back that a message has been delivered. -/
theorem Sound.lasting (h : Sound past M) (hrow : M.db.lookup id = some row)
    (hstep : RowStep M row e row') (hstatus : row.status = .delivered) : row'.status = .delivered := by
  have hworking := h.working
  cases hstep with
  | same => exact hstatus
  | expired _ hpending => cases hpending.symm.trans hstatus
  | reclaimed _ hprocessing => cases hprocessing.symm.trans hstatus
  | claimed _ hpending => cases hpending.symm.trans hstatus
  | quarantined hprocess _ hid =>
    rw [hprocess] at hworking
    exact absurd hstatus ((hworking.2 _ List.mem_cons_self).not_delivered hid hrow)
  | finished hprocess hid =>
    rw [hprocess] at hworking
    exact absurd hstatus ((hworking.2.1 _ List.mem_cons_self).not_delivered hid hrow)
  | marked => rfl
  | reset _ hprocessing => cases hprocessing.symm.trans hstatus
  | backfilled _ hdurable hkind =>
    obtain ⟨msg, hmsg, hkind⟩ := hkind
    obtain ⟨msg', hmsg', -, heq⟩ := (h.rows id row hrow).message
    obtain rfl := Option.some.inj (hmsg.symm.trans hmsg')
    rw [hdurable, hkind] at heq
    cases heq

/-- A turn deletes no row, changes no message and takes back no delivery, and what was being processed is
pending after a restart. -/
structure Careful (t : Turn Machine Event (Option Delivery)) : Prop where
  lasting : ∀ id row, t.before.db.lookup id = some row → ∃ row', t.after.db.lookup id = some row' ∧
    row'.payload = row.payload ∧ (row.status = .delivered → row'.status = .delivered)
  restarted : ∀ fails, t.input = .restart fails → t.before.process = .down → t.after.process = .idle →
    ∀ id row, t.before.db.lookup id = some row → row.status = .processing →
      ∃ row', t.after.db.lookup id = some row' ∧ row'.status = .pending

theorem Sound.careful (h : Sound past M) (e : Event) : Careful (turn Machine.step M e) where
  lasting id row hrow := by
    obtain ⟨row', hrow', hstep⟩ := step_row hrow e
    exact ⟨row', hrow', hstep.payload, h.lasting hrow hstep⟩
  restarted fails he hdown hidle id row hrow hprocessing := by
    obtain rfl : e = .restart fails := he
    exact restart_row hrow hdown hprocessing hidle

theorem sound_turns (es : List Event) :
    Sound (turns step fresh es) (runs step fresh es) ∧ ∀ t ∈ turns step fresh es, Careful t := by
  refine turns_induction (s := fresh) (motive := fun past M => Sound past M ∧ ∀ t ∈ past, Careful t)
    ⟨⟨?_, trivial⟩, fun t ht => absurd ht List.not_mem_nil⟩ ?_ es
  · rintro id row ⟨⟩
  · rintro past M e ⟨hsound, hcareful⟩
    refine ⟨hsound.step e, List.forall_mem_append.mpr ⟨hcareful, ?_⟩⟩
    exact List.forall_mem_singleton.mpr (hsound.careful e)

/-- **The outbox**: whatever messages are enqueued, whatever their deliveries return and whenever the process
stops, no row is deleted; a durable message is never given up; a message is delivered only if a delivery
of it returned `nil` or it was marked, and stays so; a message is a dead letter only after ten deliveries
that failed; and what was being processed is pending after a restart. -/
theorem messages_kept (es : List Event) :
    let past := turns step fresh es
    let M := runs step fresh es
    (∀ t ∈ past, ∀ id row, t.before.db.lookup id = some row →
      ∃ row', t.after.db.lookup id = some row' ∧ row'.payload = row.payload) ∧
    (∀ row ∈ M.db.rows, row.durable = true →
      row.status ≠ .expired ∧ row.status ≠ .failed ∧ row.status ≠ .deadLetter) ∧
    (∀ row ∈ M.db.rows, row.status = .delivered → ∃ t ∈ past, success row.id t) ∧
    (∀ t ∈ past, ∀ id row, t.before.db.lookup id = some row → row.status = .delivered →
      ∃ row', t.after.db.lookup id = some row' ∧ row'.status = .delivered) ∧
    (∀ row ∈ M.db.rows, row.durable = false → row.status = .deadLetter →
      maxAttempts ≤ past.countP (failure row.id)) ∧
    ∀ t ∈ past, ∀ fails, t.input = .restart fails → t.before.process = .down → t.after.process = .idle →
      ∀ id row, t.before.db.lookup id = some row → row.status = .processing →
        ∃ row', t.after.db.lookup id = some row' ∧ row'.status = .pending := by
  intro past M
  obtain ⟨hsound, hcareful⟩ := sound_turns es
  have hkept : ∀ row ∈ M.db.rows, Kept past row :=
    fun row hrow => hsound.rows row.id row (Table.lookup_eq_some.mpr ⟨hrow, rfl⟩)
  refine ⟨fun t ht id row hrow => ?_, fun row hrow hdurable => ?_, fun row hrow => (hkept row hrow).delivered,
    fun t ht id row hrow hstatus => ?_, fun row hrow _ => (hkept row hrow).dead, fun t ht => (hcareful t ht).restarted⟩
  · obtain ⟨row', hrow', hpayload, -⟩ := (hcareful t ht).lasting id row hrow
    exact ⟨row', hrow', hpayload⟩
  · obtain ⟨hexpired, hdead⟩ := (hkept row hrow).durable hdurable
    exact ⟨hexpired, (hkept row hrow).intact, hdead⟩
  · obtain ⟨row', hrow', -, hlasts⟩ := (hcareful t ht).lasting id row hrow
    exact ⟨row', hrow', hlasts hstatus⟩

/-! Two messages, and a process that stops between their deliveries. -/
namespace Pair

def request : Message :=
  ⟨"m1", "did:a", "did:b", "", "t", .taskRequest, .taskRequest ⟨"fetch", "", [], []⟩, 1⟩

def note : Message := ⟨"m2", "did:a", "did:b", "", "", .text, .bytes [104, 105], 1⟩

/-- A statement or delivery that succeeds. -/
def smooth (now : Int) : Env := ⟨now, none, fun _ => 0, fun _ => true, none⟩

/-- `flush` claims both messages and delivers the first one, and the process stops before this is recorded. -/
def torn : List Event :=
  [.restart fun _ => none, .enqueue "did:a" request 1 1 none, .enqueue "did:a" note 1 1 none, .flush 2,
    .next (smooth 2), .next (smooth 2), .next (smooth 2), .next (smooth 3), .stop]

/-- After a restart `flush` claims them again; the first one is delivered, the second one is not. -/
def again : List Event :=
  [.restart fun _ => none, .flush 9000, .next (smooth 9000), .next (smooth 9000), .next (smooth 9000),
    .next (smooth 9001), .next (smooth 9001), .next { smooth 9002 with outcome := some "offline" }, .next (smooth 9002)]

/-- The columns that change. -/
def columns (es : List Event) : List (String × Status × Nat) :=
  (runs step fresh es).db.rows.map fun r => (r.id, r.status, r.attempts)

end Pair

open Pair in
theorem messages_kept_pair :
    (columns torn = [("m1", .processing, 0), ("m2", .processing, 0)] ∧
      columns (torn ++ again) = [("m1", .delivered, 1), ("m2", .pending, 1)]) ∧
    ∀ row ∈ (runs step fresh (torn ++ again)).db.rows, row.status = .delivered →
      ∃ t ∈ turns step fresh (torn ++ again), success row.id t :=
  ⟨⟨by decide, by decide⟩, (messages_kept (torn ++ again)).2.2.1⟩

end Machine

end MoltMesh.Outbox

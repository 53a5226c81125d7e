import MoltMesh.Message

/-!
# The outbox

`daemon/outbox/outbox.go`: the table of outgoing messages, the statements on it, and the loop that
delivers them.  `enqueue` is a single statement that may be executed at any time.  `flush` and
`MarkDelivered` are executed one after another by the actor; `flush` is a sequence of statements and
deliveries, and the process may stop between any two of them.  `Machine.step` executes the next one.
-/

namespace MoltMesh.Outbox

open MoltMesh.Lib

/-- The column `status`. -/
inductive Status
  | pending
  | processing
  | delivered
  | expired
  | failed
  | deadLetter
deriving DecidableEq

/-- A row of `outbox`. -/
structure OutboxRow where
  id : String
  ownerDid : String
  toDid : String
  threadId : String
  taskId : String
  /-- What the marshalled message decodes to, if it does. -/
  payload : Option Message
  createdAt : Int
  expiresAt : Int
  attempts : Nat
  lastAttempt : Option Int
  status : Status
  durable : Bool
deriving DecidableEq

abbrev Db := Table OutboxRow OutboxRow.id

/-- `defaultTTL`, in milliseconds. -/
def defaultTTL : Int := 259200000

/-- `maxAttempts`. -/
def maxAttempts : Nat := 10

/-- `retryBaseDelay`, in milliseconds. -/
def retryBaseDelay : Int := 5000

/-- `durableKind`. -/
def durableKind : MessageKind → Bool
  | .threadInvite => true
  | .taskRequest => true
  | .taskResult => true
  | .taskCancel => true
  | _ => false

/-! ## Statements -/

/-- The row `enqueue` inserts; the clock is read twice. -/
def newRow (ownerDID : String) (msg : Message) (now later : Int) : OutboxRow where
  id := msg.id
  ownerDid := ownerDID
  toDid := msg.toDid
  threadId := msg.threadId
  taskId := msg.taskId
  payload := some msg
  createdAt := later
  expiresAt := now + defaultTTL
  attempts := 0
  lastAttempt := none
  status := .pending
  durable := durableKind msg.kind

/-- A statement whose error is logged. -/
def exec (fails : Option String) (db db' : Db) : Db :=
  match fails with
  | some _ => db
  | none => db'

/-- `enqueue`; the message cannot be marshalled, or the statement fails. -/
def enqueue (fails : Option String) (ownerDID : String) (msg : Message) (now later : Int) (db : Db) :
    Except String Unit × Db :=
  match fails with
  | some err => (.error err, db)
  | none => (.ok (), db.insertOrIgnore (newRow ownerDID msg now later))

/-- `markDelivered`. -/
def markDelivered (id : String) (db : Db) : Db :=
  db.updateWhere (fun r => r.id = id) (fun r => { r with status := .delivered }) fun _ => rfl

/-- The messages that are not durable expire. -/
def expire (now : Int) (db : Db) : Db :=
  db.updateWhere (fun r => r.status = .pending ∧ r.durable = false ∧ r.expiresAt < now)
    (fun r => { r with status := .expired }) fun _ => rfl

/-- What has been claimed for more than a minute is pending again. -/
def reclaim (now : Int) (db : Db) : Db :=
  db.updateWhere (fun r => r.status = .processing ∧ r.lastAttempt.any fun x => x < now - 60000)
    (fun r => { r with status := .pending }) fun _ => rfl

/-- `WHERE status = 'pending' AND (last_attempt IS NULL OR last_attempt < ?) LIMIT 50`, in the order in which the
rows are found. -/
def picked (rank : String → Int) (before : Int) (db : Db) : List OutboxRow :=
  (orderBy (fun r => rank r.id) (db.select fun r =>
    r.status = .pending ∧ (r.lastAttempt = none ∨ r.lastAttempt.any fun x => x < before))).take 50

/-- The messages are claimed. -/
def claim (now : Int) (ids : List String) (db : Db) : Db :=
  db.updateWhere (fun r => r.id ∈ ids) (fun r => { r with status := .processing, lastAttempt := some now }) fun _ => rfl

/-- `pending`, a message that has been claimed. -/
structure Pending where
  id : String
  payload : Option Message
  attempts : Nat
  durable : Bool

/-- A row that is scanned. -/
def scan (r : OutboxRow) : Pending := ⟨r.id, r.payload, r.attempts, r.durable⟩

/-- A message that does not decode. -/
def quarantine (now : Int) (id : String) (db : Db) : Db :=
  db.updateWhere (fun r => r.id = id)
    (fun r => { r with status := .failed, attempts := r.attempts + 1, lastAttempt := some now }) fun _ => rfl

/-- The status after a delivery. -/
def statusAfter (item : Pending) : Option String → Status
  | none => .delivered
  | some _ => if item.durable = false ∧ maxAttempts ≤ item.attempts + 1 then .deadLetter else .pending

/-- The outcome of a delivery is recorded. -/
def finish (now : Int) (item : Pending) (outcome : Option String) (db : Db) : Db :=
  db.updateWhere (fun r => r.id = item.id)
    (fun r => { r with status := statusAfter item outcome, attempts := item.attempts + 1, lastAttempt := some now })
    fun _ => rfl

/-! ## Opening the database -/

/-- The statements of `migrate`. -/
inductive Migration
  /-- The database is opened, and the table is created or altered. -/
  | schema
  /-- What was being processed is pending again. -/
  | reset
  /-- The rows are read that are not durable. -/
  | legacy
  | backfill (id : String)

/-- `UPDATE outbox SET status = 'pending' WHERE status = 'processing'`. -/
def reset (db : Db) : Db :=
  db.updateWhere (fun r => r.status = .processing) (fun r => { r with status := .pending }) fun _ => rfl

/-- `wakeIDs`: the messages that should be durable and are not. -/
def wakeIDs (db : Db) : List String :=
  (db.select fun r => r.durable = false ∧ r.payload.any fun msg => durableKind msg.kind).map OutboxRow.id

/-- What is written to a message that should be durable. -/
def backfilled (r : OutboxRow) : OutboxRow :=
  { r with durable := true, status := if r.status = .expired ∨ r.status = .failed then .pending else r.status }

def backfill (fails : Migration → Option String) : List String → Db → Except String Unit × Db
  | [], db => (.ok (), db)
  | id :: ids, db => match fails (.backfill id) with
    | some err => (.error err, db)
    | none => backfill fails ids (db.updateWhere (fun r => r.id = id) backfilled fun _ => rfl)

/-- `migrate`. -/
def migrate (fails : Migration → Option String) (db : Db) : Except String Unit × Db :=
  match fails .schema with
  | some err => (.error err, db)
  | none => match fails .reset with
  | some err => (.error err, db)
  | none => match fails .legacy with
  | some err => (.error err, reset db)
  | none => backfill fails (wakeIDs (reset db)) (reset db)

/-! ## The delivery loop -/

/-- What the process does next. -/
inductive Process
  /-- There is no process. -/
  | down
  /-- The actor has nothing to do. -/
  | idle
  /-- `flush` has read the clock. -/
  | expiring (now : Int)
  | reclaiming (now : Int)
  | claiming (now : Int)
  /-- The messages of `flush` that have not been delivered yet. -/
  | delivering (items : List Pending)
  /-- A message has been delivered or not, the others follow. -/
  | finishing (item : Pending) (outcome : Option String) (items : List Pending)

/-- What the environment decides during one statement or delivery of `flush`. -/
structure Env where
  /-- `time.Now()` in milliseconds since 1970. -/
  now : Int
  /-- The error of the statement, if it fails. -/
  fails : Option String
  /-- The order in which rows are found. -/
  rank : String → Int
  /-- The rows that are scanned without an error. -/
  scans : String → Bool
  /-- The error `deliver` returns, if it is not `nil`. -/
  outcome : Option String

/-- The table and the process that works on it. -/
structure Machine where
  db : Db
  process : Process

inductive Event
  | enqueue (ownerDID : String) (msg : Message) (now later : Int) (fails : Option String)
  /-- `flush` is called. -/
  | flush (now : Int)
  /-- `flush` goes on. -/
  | next (env : Env)
  | markDelivered (id : String) (fails : Option String)
  | stop
  /-- `New` opens the database. -/
  | restart (fails : Migration → Option String)

/-- A call of `deliver`, with what it returns. -/
structure Delivery where
  msg : Message
  outcome : Option String

namespace Machine

variable (M : Machine)

/-- The next statement or delivery of `flush`. -/
def next (env : Env) : Option Delivery × Machine :=
  match M.process with
  | .down => (none, M)
  | .idle => (none, M)
  | .expiring now => (none, ⟨exec env.fails M.db (expire now M.db), .reclaiming now⟩)
  | .reclaiming now => (none, ⟨exec env.fails M.db (reclaim now M.db), .claiming now⟩)
  | .claiming now => match env.fails with
    | some _ => (none, { M with process := .idle })
    | none =>
      let rows := picked env.rank (env.now - retryBaseDelay) M.db
      (none, ⟨claim now (rows.map OutboxRow.id) M.db,
        .delivering ((rows.filter fun r => env.scans r.id).map scan)⟩)
  | .delivering [] => (none, { M with process := .idle })
  | .delivering (item :: items) => match item.payload with
    | none => (none, ⟨exec env.fails M.db (quarantine env.now item.id M.db), .delivering items⟩)
    | some msg => (some ⟨msg, env.outcome⟩, { M with process := .finishing item env.outcome items })
  | .finishing item outcome items =>
    (none, ⟨exec env.fails M.db (finish env.now item outcome M.db), .delivering items⟩)

/-- One event.  What needs the process or the actor waits for it. -/
def step : Event → Option Delivery × Machine
  | .enqueue ownerDID msg now later fails => match M.process with
    | .down => (none, M)
    | _ => (none, { M with db := (enqueue fails ownerDID msg now later M.db).2 })
  | .flush now => match M.process with
    | .idle => (none, { M with process := .expiring now })
    | _ => (none, M)
  | .next env => M.next env
  | .markDelivered id fails => match M.process with
    | .idle => (none, { M with db := exec fails M.db (markDelivered id M.db) })
    | _ => (none, M)
  | .stop => (none, { M with process := .down })
  | .restart fails => match M.process with
    | .down => match migrate fails M.db with
      | (.error _, db) => (none, { M with db })
      | (.ok (), db) => (none, ⟨db, .idle⟩)
    | _ => (none, M)

/-- A new database, before the process has been started. -/
def fresh : Machine := ⟨.empty, .down⟩

end Machine

end MoltMesh.Outbox

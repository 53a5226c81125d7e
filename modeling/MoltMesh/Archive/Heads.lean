import MoltMesh.Verify

/-!
# Records that point to a chain

`daemon/thread/publisher.go` and `pkg/a2avalidator/thread_head.go`: the records under
`/threads/` in the distributed hash table, what is checked of them on the way in, and the two
lookups that a reader of a chain makes.

The records are not signed, so everything a peer answers is a value of the model, and it may
depend on all that was asked before.
-/

namespace MoltMesh

open MoltMesh.Lib Pb

universe v

/-- `ThreadHead`: where a chain, or one block of it, is to be found. -/
structure ThreadHead where
  threadID : String
  height : Int
  blockCid : String
  blockHash : String
  thread : Option Thread
deriving DecidableEq

/-- The JSON object of a record under `/threads/`, with the fields of a head and those of a pointer to
a recovery envelope.  A field that is absent has its default value. -/
structure Record extends ThreadHead where
  epoch : Nat := 0
  envelopeCid : String := ""
deriving DecidableEq

/-! ## The validator -/

/-- `strings.TrimPrefix`. -/
def trimFront (front s : List Char) : List Char := if front <+: s then s.drop front.length else s

/-- `stripNamespace`. -/
def stripNamespace (key : String) (segment : String) : List Char :=
  trimFront segment.toList (trimFront ['/'] key.toList)

/-- `strconv.ParseUint` with base 10 and 64 bits. -/
def parseUint (s : List Char) : Option Nat :=
  if s = [] ∨ ¬s.all Char.isDigit then none
  else
    let n := s.foldl (fun n c => 10 * n + (c.toNat - '0'.toNat)) 0
    if n < 2 ^ 64 then some n else none

/-- `strconv.ParseInt` with base 10 and 64 bits. -/
def parseInt (s : List Char) : Option Int :=
  let (neg, digits) := match s with
    | '-' :: s => (true, s)
    | '+' :: s => (false, s)
    | s => (false, s)
  match parseUint digits with
  | none => none
  | some n => if neg then (if n ≤ 2 ^ 63 then some (-n) else none)
    else if n < 2 ^ 63 then some n else none

section Validate

variable (decodes : String → Bool)

/-- What `Validate` checks of a record under the key of a recovery envelope. -/
def validateEnvelope (threadID epoch : List Char) (r : Record) : Except String Unit :=
  if threadID = [] ∨ r.threadID ≠ String.ofList threadID ∨ r.epoch = 0 ∨ r.envelopeCid = "" then
    .error "a2avalidator: invalid recovery envelope record"
  else if parseUint epoch ≠ some r.epoch then
    .error "a2avalidator: recovery envelope epoch does not match key"
  else if ¬decodes r.envelopeCid then .error "a2avalidator: invalid recovery envelope CID"
  else .ok ()

/-- What `Validate` checks of a pointer to a block. -/
def validatePointer (parts : List (List Char)) (r : Record) : Except String Unit :=
  if parts.length > 2 ∨ parts.headD [] = [] ∨ r.threadID ≠ String.ofList (parts.headD []) then
    .error "a2avalidator: thread_id does not match key"
  else if parts.length = 2 ∧ parseInt (parts.getD 1 []) ≠ some r.height then
    .error "a2avalidator: height does not match key"
  else if r.blockCid = "" then .error "a2avalidator: thread head missing block_cid field"
  else if ¬decodes r.blockCid then .error "a2avalidator: invalid block CID"
  else if r.height < 1 then .error "a2avalidator: thread head height must be >= 1"
  else .ok ()

/-- `ThreadHeadValidator.Validate`, of a value that is JSON. -/
def validate (key : String) (r : Record) : Except String Unit :=
  let stripped := stripNamespace key "threads/"
  if stripped = [] then .error "a2avalidator: empty key"
  else if r.threadID = "" then .error "a2avalidator: thread head missing thread_id field"
  else
    let parts := stripped.splitOn '/'
    if parts.length = 3 ∧ parts.getD 1 [] = "recovery".toList then
      validateEnvelope decodes (parts.headD []) (parts.getD 2 []) r
    else validatePointer decodes parts r

end Validate

/-! ## Lookups -/

/-- The peers of a node: the values they have in the hash table, the blocks they send and which texts
are content identifiers. -/
structure Peers (σ : Type v) where
  getValue : String → σ → Except String Record × σ
  getBlock : String → σ → Except String ThreadBlock × σ
  decodes : String → Bool

/-- The errors of the two lookups, with the values their texts report. -/
inductive ResolveError
  | get (err : String)
  | mismatch (threadID : String) (height : Int)
  | cid (blockCid : String)
  | fetch (err : String)
deriving DecidableEq

namespace Peers

variable {σ : Type v} (P : Peers σ)

/-- `GetValue` of the hash table, which drops the values its validator refuses. -/
def lookupValue (key : String) (st : σ) : Except String Record × σ :=
  match P.getValue key st with
  | (.error err, st) => (.error err, st)
  | (.ok r, st) => match validate P.decodes key r with
    | .error _ => (.error "routing: not found", st)
    | .ok () => (.ok r, st)

/-- `threadHeadDHTKey`. -/
def threadHeadDHTKey (threadID : String) : String := "/threads/" ++ threadID

/-- `threadHeightDHTKey`. -/
def threadHeightDHTKey (threadID : String) (height : Int) : String :=
  "/threads/" ++ threadID ++ "/" ++ decimal height

/-- `ResolveHead`. -/
def resolveHead (threadID : String) (st : σ) : Except ResolveError ThreadHead × σ :=
  match P.lookupValue (threadHeadDHTKey threadID) st with
  | (.error err, st) => (.error (.get err), st)
  | (.ok r, st) =>
    if r.threadID ≠ threadID then (.error (.mismatch r.threadID r.height), st)
    else if ¬P.decodes r.blockCid then (.error (.cid r.blockCid), st)
    else (.ok r.toThreadHead, st)

/-- `ResolveHeight`. -/
def resolveHeight (threadID : String) (height : Int) (st : σ) : Except ResolveError ThreadHead × σ :=
  match P.lookupValue (threadHeightDHTKey threadID height) st with
  | (.error err, st) => (.error (.get err), st)
  | (.ok r, st) =>
    if r.threadID ≠ threadID ∨ r.height ≠ height then (.error (.mismatch r.threadID r.height), st)
    else if ¬P.decodes r.blockCid then (.error (.cid r.blockCid), st)
    else (.ok r.toThreadHead, st)

/-- `FetchBlock`. -/
def fetchBlock (cid : String) (st : σ) : Except ResolveError ThreadBlock × σ :=
  if ¬P.decodes cid then (.error (.cid cid), st)
  else match P.getBlock cid st with
    | (.error err, st) => (.error (.fetch err), st)
    | (.ok b, st) => (.ok b, st)

end Peers

/-! ## What a head that is resolved has passed -/

section Resolved

variable {decodes : String → Bool} {σ : Type v} {P : Peers σ}

theorem validatePointer_height {parts : List (List Char)} {r : Record}
    (h : validatePointer decodes parts r = .ok ()) : 1 ≤ r.height := by
  unfold validatePointer at h
  split at h
  · cases h
  split at h
  · cases h
  split at h
  · cases h
  split at h
  · cases h
  split at h
  · cases h
  · omega

theorem validateEnvelope_threadID {threadID epoch : List Char} {r : Record}
    (h : validateEnvelope decodes threadID epoch r = .ok ()) : r.threadID = String.ofList threadID := by
  unfold validateEnvelope at h
  split at h
  · cases h
  · rename_i hrecord
    rw [not_or, not_or, not_not] at hrecord
    exact hrecord.2.1

theorem trimFront_append (front s : List Char) : trimFront front (front ++ s) = s := by
  rw [trimFront, if_pos (List.prefix_append _ _), List.drop_left]

/-- The key of a head is the thread's id after the namespace. -/
theorem stripNamespace_threadHeadDHTKey (threadID : String) :
    stripNamespace (Peers.threadHeadDHTKey threadID) "threads/" = threadID.toList := by
  have hkey : (Peers.threadHeadDHTKey threadID).toList = ['/'] ++ ("threads/".toList ++ threadID.toList) := by
    rw [Peers.threadHeadDHTKey, String.toList_append]
    rfl
  rw [stripNamespace, hkey, trimFront_append, trimFront_append]

/-- What is between slashes is shorter than the whole. -/
theorem length_headD_splitOn {s : List Char} (h : (s.splitOn '/').length = 3) :
    ((s.splitOn '/').headD []).length < s.length := by
  have hjoin : ['/'].intercalate (s.splitOn '/') = s := List.intercalate_splitOn '/'
  generalize s.splitOn '/' = parts at h hjoin
  obtain ⟨a, b, c, rfl⟩ := List.length_eq_three.mp h
  rw [← hjoin]
  simp [List.intercalate]

theorem Peers.validate_of_lookupValue {key : String} {st st' : σ} {r : Record}
    (h : P.lookupValue key st = (.ok r, st')) : validate P.decodes key r = .ok () := by
  unfold lookupValue at h
  split at h
  · cases h
  split at h
  · cases h
  · rename_i hpass
    cases h
    exact hpass

theorem Peers.resolveHead_eq_ok {threadID : String} {st st' : σ} {head : ThreadHead}
    (h : P.resolveHead threadID st = (.ok head, st')) : ∃ r : Record, r.toThreadHead = head ∧
      head.threadID = threadID ∧ validate P.decodes (threadHeadDHTKey threadID) r = .ok () := by
  unfold resolveHead at h
  split at h
  · cases h
  rename_i r st₁ hvalue
  split at h
  · cases h
  rename_i hid
  split at h
  · cases h
  · cases h
    exact ⟨r, rfl, not_not.mp hid, validate_of_lookupValue hvalue⟩

/-- A record that is the head of a thread has a height: the key of a recovery envelope is not the key
of a head whose id it has. -/
theorem Peers.height_of_resolveHead {threadID : String} {st st' : σ} {head : ThreadHead}
    (h : P.resolveHead threadID st = (.ok head, st')) : 1 ≤ head.height := by
  obtain ⟨r, rfl, hid, hpass⟩ := resolveHead_eq_ok h
  unfold validate at hpass
  rw [stripNamespace_threadHeadDHTKey] at hpass
  dsimp only at hpass
  split at hpass
  · cases hpass
  split at hpass
  · cases hpass
  split at hpass
  · rename_i hparts
    have hshort := length_headD_splitOn hparts.1
    have hname := congrArg String.toList (validateEnvelope_threadID hpass)
    rw [hid, String.toList_ofList] at hname
    rw [← hname] at hshort
    exact absurd hshort (lt_irrefl _)
  · exact validatePointer_height hpass

end Resolved

end MoltMesh

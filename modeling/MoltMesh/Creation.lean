import MoltMesh.Descriptor
import MoltMesh.Lib.Quorum
import MoltMesh.Tendermint.Backend
import MoltMesh.Verify

/-!
# Creating a thread

`newThreadFromRequest` of `daemon/thread/manager.go`: the descriptor of a new thread
is made from a request, with the creator among the replicas and a validator-set size
that follows from the faults to be tolerated and the backend.  The request is refused
when it names too few replicas; that it may name too many matters to Tendermint,
whose quorum is computed from `F` alone.
-/

namespace MoltMesh

open MoltMesh.Lib Pb Tendermint

/-- The fields of `pb.CreateThreadRequest` that `newThreadFromRequest` reads. -/
structure CreateThreadRequest where
  replicaDids : List String
  f : Int32
  epochMs : Int
  /-- A missing map and an empty one are the same on the wire. -/
  metadata : List (String × String)
deriving DecidableEq

/-- `maxTolerableFailures`. -/
def maxTolerableFailures (backend : BackendKind) (replicas : Nat) : Nat :=
  if replicas < 1 then 0
  else if backend = .tendermint then (replicas - 1) / 3
  else (replicas - 1) / 2

/-- The errors of `newThreadFromRequest`, with the values their texts report. -/
inductive CreateError
  /-- `thread creation request is required`. -/
  | requestRequired
  /-- `backend %q with f=%d needs at least %d replicas, got %d: %d replicas supports at most f=%d (use
  f=0 for a single voter plus %d read-only observers)`. -/
  | tooFewReplicas (backend : String) (f n : Int32) (replicas maxF observers : Nat)
deriving DecidableEq

/-- The creator is put in front of the replicas if it is not among them. -/
def withCreator (selfDID : String) (dids : List String) : List String :=
  if selfDID ∈ dids then dids else selfDID :: dids

/-- The metadata with the default backend. -/
def withBackend (metadata : List (String × String)) : List (String × String) :=
  if (metadata.lookup "backend").isSome then metadata else metadata ++ [("backend", "raft")]

/-- `Metadata["backend"]`; a missing key gives the empty text. -/
def backendText (metadata : List (String × String)) : String := (metadata.lookup "backend").getD ""

/-- The size of the validator set, in the arithmetic of `int32`. -/
def validatorCount (backend : BackendKind) (f : Int32) : Int32 :=
  if f = 0 then 1 else if backend = .tendermint then 3 * f + 1 else 2 * f + 1

/-- `newThreadFromRequest`; `uuid` and `now` are what `uuid.New` and the clock return. -/
def newThreadFromRequest (uuid : String) (now : Int) (selfDID : String)
    (req : Option CreateThreadRequest) (requestedID : String) (createdAt : Int) :
    Except CreateError Thread :=
  match req with
  | none => .error .requestRequired
  | some req =>
    let replicas := withCreator selfDID req.replicaDids
    let metadata := withBackend req.metadata
    let backend := BackendKind.ofText (backendText metadata)
    let n := validatorCount backend req.f
    if Int32.ofNat replicas.length < n then
      .error (.tooFewReplicas (backendText metadata) req.f n replicas.length
        (maxTolerableFailures backend replicas.length) (replicas.length - 1))
    else .ok
      { id := if requestedID = "" then uuid else requestedID
        creatorDid := selfDID
        replicaDids := replicas
        n
        f := req.f
        epochMs := if req.epochMs = 0 then defaultEpochMs else req.epochMs
        createdAt := if createdAt = 0 then now else createdAt
        metadata }

/-- The fields of a request that an SDK has signed. -/
structure SignedRequest extends CreateThreadRequest where
  threadId : String
  creatorDid : String
  creatorSignature : List UInt8
  createdAt : Int
deriving DecidableEq

/-- The errors of `NewThreadFromSignedRequest`. -/
inductive SignedRequestError
  /-- `signed thread creation requires thread_id, creator_did, creator_signature, and created_at`. -/
  | incomplete
  | create (err : CreateError)
  /-- `verify SDK thread descriptor`. -/
  | verify (err : DescriptorError)
deriving DecidableEq

/-- `NewThreadFromSignedRequest`; there is no result when `ed25519.Verify` panics. -/
def newThreadFromSignedRequest (C : Ed25519) (uuid : String) (now : Int)
    (req : Option SignedRequest) : Option (Except SignedRequestError Thread) :=
  match req with
  | none => some (.error .incomplete)
  | some req =>
    if req.threadId = "" ∨ req.creatorDid = "" ∨ req.creatorSignature = [] ∨ req.createdAt ≤ 0 then
      some (.error .incomplete)
    else match newThreadFromRequest uuid now req.creatorDid (some req.toCreateThreadRequest)
        req.threadId req.createdAt with
      | .error err => some (.error (.create err))
      | .ok th =>
        let th := withSignature th (String.ofList (base64Chars req.creatorSignature))
        (verifyDescriptor C th).map fun
          | .error err => .error (.verify err)
          | .ok () => .ok th

theorem mem_withCreator {selfDID : String} {dids : List String} {did : String} :
    did ∈ withCreator selfDID dids ↔ did = selfDID ∨ did ∈ dids := by
  unfold withCreator
  split
  · rename_i hself
    refine ⟨.inr, ?_⟩
    rintro (rfl | hdid)
    · exact hself
    · exact hdid
  · exact List.mem_cons

section Accepted

variable {uuid selfDID requestedID : String} {now createdAt : Int} {req : CreateThreadRequest}
  {th : Thread}

/-- A request that is accepted for a thread of the given backend. -/
def Accepted (backend : BackendKind) (uuid : String) (now : Int) (selfDID : String)
    (req : CreateThreadRequest) (requestedID : String) (createdAt : Int) (th : Thread) : Prop :=
  newThreadFromRequest uuid now selfDID (some req) requestedID createdAt = .ok th ∧
    BackendKind.ofText (backendText th.metadata) = backend

/-- The backend a request names. -/
def CreateThreadRequest.backend (req : CreateThreadRequest) : BackendKind :=
  .ofText (backendText (withBackend req.metadata))

/-- The thread that is made from a request. -/
def CreateThreadRequest.thread (uuid : String) (now : Int) (selfDID : String) (req : CreateThreadRequest)
    (requestedID : String) (createdAt : Int) : Thread where
  id := if requestedID = "" then uuid else requestedID
  creatorDid := selfDID
  replicaDids := withCreator selfDID req.replicaDids
  n := validatorCount req.backend req.f
  f := req.f
  epochMs := if req.epochMs = 0 then defaultEpochMs else req.epochMs
  createdAt := if createdAt = 0 then now else createdAt
  metadata := withBackend req.metadata

theorem newThreadFromRequest_eq_ok_iff :
    newThreadFromRequest uuid now selfDID (some req) requestedID createdAt = .ok th ↔
      ¬Int32.ofNat (withCreator selfDID req.replicaDids).length < validatorCount req.backend req.f ∧
        th = req.thread uuid now selfDID requestedID createdAt := by
  unfold newThreadFromRequest
  dsimp only
  split
  · rename_i hfew
    exact iff_of_false (by rintro ⟨⟩) fun h => h.1 hfew
  · rename_i hmany
    exact ⟨fun h => ⟨hmany, (Except.ok.inj h).symm⟩, fun h => congrArg Except.ok h.2.symm⟩

theorem newThreadFromRequest_eq_ok
    (h : newThreadFromRequest uuid now selfDID (some req) requestedID createdAt = .ok th) :
    th.replicaDids = withCreator selfDID req.replicaDids ∧ th.f = req.f := by
  obtain ⟨-, rfl⟩ := newThreadFromRequest_eq_ok_iff.mp h
  exact ⟨rfl, rfl⟩

/-- The validators of an accepted thread are the creator and the replicas of the request. -/
theorem isKnownValidator_of_accepted {backend : BackendKind}
    (h : Accepted backend uuid now selfDID req requestedID createdAt th) (did : String) :
    isKnownValidator th did = true ↔ did ∈ insert selfDID req.replicaDids.toFinset := by
  rw [isKnownValidator, decide_eq_true_eq, (newThreadFromRequest_eq_ok h.1).1, mem_withCreator,
    Finset.mem_insert, List.mem_toFinset]

/-- **When two quorums of an accepted Tendermint thread share `F + 1` validators**: `F` is negative, or
the request names, with the creator, at most `3 F + 1` different replicas. -/
theorem tendermint_quorums_share_iff
    (h : Accepted .tendermint uuid now selfDID req requestedID createdAt th) :
    (∀ P Q : Finset String, (∀ did ∈ P, isKnownValidator th did = true) →
      (∀ did ∈ Q, isKnownValidator th did = true) → quorum th ≤ P.card → quorum th ≤ Q.card →
      th.f.toInt + 1 ≤ (P ∩ Q).card) ↔
    req.f.toInt < 0 ∨ ((insert selfDID req.replicaDids.toFinset).card : Int) ≤ 3 * req.f.toInt + 1 := by
  have hf : th.f = req.f := (newThreadFromRequest_eq_ok h.1).2
  have hvalid (P : Finset String) : (∀ did ∈ P, isKnownValidator th did = true) ↔
      P ⊆ insert selfDID req.replicaDids.toFinset :=
    forall₂_congr fun did _ => isKnownValidator_of_accepted h did
  simp only [hvalid, quorum, hf]
  generalize insert selfDID req.replicaDids.toFinset = M
  rcases Int.lt_or_le req.f.toInt 0 with hneg | hpos
  · -- Nothing is asked of the intersection.
    refine iff_of_true (fun P Q _ _ _ _ => ?_) (.inl hneg)
    omega
  · obtain ⟨k, hk⟩ := Int.eq_ofNat_of_zero_le hpos
    have hshare := quorums_share_iff (M := M) (q := 2 * k + 1) (k := k + 1) (Nat.succ_pos k)
    rw [hk]
    constructor
    · intro hall
      have hcard := hshare.mp fun P hP Q hQ hPcard hQcard => by
        have hle := hall P Q hP hQ (by omega) (by omega)
        omega
      omega
    · intro hcard P Q hP hQ hPcard hQcard
      have hle := hshare.mpr (by omega) P hP Q hQ (by omega) (by omega)
      omega

/-! ### The size of the validator set -/

/-- The voters it takes to tolerate `f` failures. -/
def votersFor (backend : BackendKind) (f : Int) : Int :=
  if backend = .tendermint then 3 * f + 1 else 2 * f + 1

theorem toInt_validatorCount (backend : BackendKind) (f : Int32) :
    (validatorCount backend f).toInt = (votersFor backend f.toInt).bmod (2 ^ 32) := by
  unfold validatorCount votersFor
  split
  · rename_i hzero
    rw [hzero]
    split <;> rfl
  · split <;> simp

/-- `maxTolerableFailures` inverts the sizes. -/
theorem le_maxTolerableFailures_iff {backend : BackendKind} {f : Int} {members : Nat} (hpos : 0 < members) :
    f ≤ maxTolerableFailures backend members ↔ votersFor backend f ≤ members := by
  unfold maxTolerableFailures votersFor
  rw [if_neg (by omega)]
  split <;> omega

/-- The length of the list of replicas, in the arithmetic of `int32`. -/
def listed (selfDID : String) (dids : List String) : Int := (Int32.ofNat (withCreator selfDID dids).length).toInt

/-- A request is accepted if and only if its different members suffice, and for as many voters as it takes. -/
def WellSized (uuid : String) (now : Int) (selfDID : String) (req : CreateThreadRequest) (requestedID : String)
    (createdAt : Int) : Prop :=
  ((∃ th, newThreadFromRequest uuid now selfDID (some req) requestedID createdAt = .ok th) ↔
    0 ≤ req.f.toInt ∧
      req.f.toInt ≤ maxTolerableFailures req.backend (insert selfDID req.replicaDids.toFinset).card) ∧
  ∀ th, newThreadFromRequest uuid now selfDID (some req) requestedID createdAt = .ok th →
    th.n.toInt = votersFor req.backend req.f.toInt

/-- What is checked is the wrapped size against the wrapped length. -/
theorem accepted_iff : (∃ th, newThreadFromRequest uuid now selfDID (some req) requestedID createdAt = .ok th) ↔
    (votersFor req.backend req.f.toInt).bmod (2 ^ 32) ≤ listed selfDID req.replicaDids := by
  simp only [newThreadFromRequest_eq_ok_iff, exists_and_left, exists_eq, and_true]
  rw [← toInt_validatorCount, listed, ← Int32.le_iff_toInt_le, Int32.not_lt]

/-- **When a thread gets its size**: a size that the different members reach is also reached by the length of the list,
and every other one, a negative `F` included, is beyond that length when it has been wrapped. -/
theorem wellSized_iff : WellSized uuid now selfDID req requestedID createdAt ↔
    if 0 ≤ req.f.toInt ∧ votersFor req.backend req.f.toInt ≤ (insert selfDID req.replicaDids.toFinset).card then
      votersFor req.backend req.f.toInt ≤ listed selfDID req.replicaDids
    else listed selfDID req.replicaDids < (votersFor req.backend req.f.toInt).bmod (2 ^ 32) := by
  have hpos : 0 < (insert selfDID req.replicaDids.toFinset).card := (Finset.insert_nonempty ..).card_pos
  have hlisted : listed selfDID req.replicaDids < 2 ^ 31 := Int32.toInt_lt _
  rw [WellSized, le_maxTolerableFailures_iff hpos]
  by_cases hallowed : 0 ≤ req.f.toInt ∧
      votersFor req.backend req.f.toInt ≤ (insert selfDID req.replicaDids.toFinset).card
  · rw [if_pos hallowed]
    have hone : 1 ≤ votersFor req.backend req.f.toInt := by
      unfold votersFor
      split <;> omega
    constructor
    · rintro ⟨haccept, hsize⟩
      obtain ⟨th, hth⟩ := haccept.mpr hallowed
      have hle := accepted_iff.mp ⟨th, hth⟩
      obtain ⟨-, rfl⟩ := newThreadFromRequest_eq_ok_iff.mp hth
      rw [← toInt_validatorCount] at hle
      rwa [← hsize _ hth]
    · intro hle
      have hwrap : (votersFor req.backend req.f.toInt).bmod (2 ^ 32) = votersFor req.backend req.f.toInt :=
        Int.bmod_eq_of_le (by omega) (by omega)
      refine ⟨iff_of_true (accepted_iff.mpr (by rwa [hwrap])) hallowed, fun th hth => ?_⟩
      obtain ⟨-, rfl⟩ := newThreadFromRequest_eq_ok_iff.mp hth
      exact (toInt_validatorCount ..).trans hwrap
  · rw [if_neg hallowed]
    constructor
    · rintro ⟨haccept, -⟩
      exact not_le.mp fun hle => hallowed (haccept.mp (accepted_iff.mpr hle))
    · intro hlt
      exact ⟨iff_of_false (fun h => not_le.mpr hlt (accepted_iff.mp h)) hallowed,
        fun th hth => absurd (accepted_iff.mp ⟨th, hth⟩) (not_le.mpr hlt)⟩

end Accepted

/-- One member listed three times passes for three, a negative `F` is accepted, and so is one whose size overflows. -/
theorem newThreadFromRequest_missized :
    ¬WellSized "t" 1 "d1" ⟨["d1", "d1", "d1"], 1, 0, []⟩ "" 0 ∧ ¬WellSized "t" 1 "d1" ⟨["d1"], -1, 0, []⟩ "" 0 ∧
      ¬WellSized "t" 1 "d1" ⟨["d1"], 1073741824, 0, []⟩ "" 0 := by
  refine ⟨fun h => ?_, fun h => ?_, fun h => ?_⟩ <;>
    exact absurd (h.1.mp ⟨_, rfl⟩) (by decide)

/-- A request for a Tendermint thread that tolerates one fault. -/
def requestOf (replicaDids : List String) : CreateThreadRequest where
  replicaDids
  f := 1
  epochMs := 0
  metadata := [("backend", "tendermint")]

/-- The thread that is created from it. -/
def threadOf (replicaDids : List String) : Thread where
  id := "t"
  creatorDid := "d1"
  replicaDids
  n := 4
  f := 1
  epochMs := 1000
  createdAt := 1
  metadata := [("backend", "tendermint")]

/-- Five replicas are accepted, and two quorums of them share one validator. -/
theorem tendermint_quorums_barely_share :
    Accepted .tendermint "t" 1 "d1" (requestOf ["d1", "d2", "d3", "d4", "d5"]) "" 0
      (threadOf ["d1", "d2", "d3", "d4", "d5"]) ∧
    ∃ P Q : Finset String,
      (∀ did ∈ P, isKnownValidator (threadOf ["d1", "d2", "d3", "d4", "d5"]) did = true) ∧
      (∀ did ∈ Q, isKnownValidator (threadOf ["d1", "d2", "d3", "d4", "d5"]) did = true) ∧
      quorum (threadOf ["d1", "d2", "d3", "d4", "d5"]) ≤ P.card ∧
      quorum (threadOf ["d1", "d2", "d3", "d4", "d5"]) ≤ Q.card ∧
      ((P ∩ Q).card : Int) < (threadOf ["d1", "d2", "d3", "d4", "d5"]).f.toInt + 1 :=
  ⟨⟨rfl, rfl⟩, {"d1", "d2", "d3"}, {"d3", "d4", "d5"}, by decide, by decide, by decide, by decide,
    by decide⟩

/-- Four replicas are accepted, and two quorums of them share two. -/
theorem tendermint_quorums_share_four :
    Accepted .tendermint "t" 1 "d1" (requestOf ["d1", "d2", "d3", "d4"]) "" 0
      (threadOf ["d1", "d2", "d3", "d4"]) ∧
    ∀ P Q : Finset String,
      (∀ did ∈ P, isKnownValidator (threadOf ["d1", "d2", "d3", "d4"]) did = true) →
      (∀ did ∈ Q, isKnownValidator (threadOf ["d1", "d2", "d3", "d4"]) did = true) →
      quorum (threadOf ["d1", "d2", "d3", "d4"]) ≤ P.card →
      quorum (threadOf ["d1", "d2", "d3", "d4"]) ≤ Q.card →
      (threadOf ["d1", "d2", "d3", "d4"]).f.toInt + 1 ≤ (P ∩ Q).card := by
  have haccept : Accepted .tendermint "t" 1 "d1" (requestOf ["d1", "d2", "d3", "d4"]) "" 0
      (threadOf ["d1", "d2", "d3", "d4"]) := ⟨rfl, rfl⟩
  exact ⟨haccept, (tendermint_quorums_share_iff haccept).mpr (.inr (by decide))⟩

end MoltMesh

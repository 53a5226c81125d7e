import MoltMesh.Tendermint.Agreement

/-!
# Scripted runs

A run of a group given line by line, so that it can be evaluated: `Group.exec`
plays a script and `Group.exec_run` says that what it plays is a run in which
every message is one that a replica has broadcast or a Byzantine one has signed,
no database call fails and nothing panics.
-/

namespace MoltMesh.Tendermint

open MoltMesh.Lib Pb

variable {l : List Backend}

/-- An environment that shows a given time, visits maps in order and fails nothing. -/
def clock (t : Nat) : Env where
  now := (t + 1 : Nat)
  now_pos := Int.natCast_succ_pos t
  iterate := id
  iterate_perm := List.Perm.refl
  fails _ := false
  readFails _ := false

/-- What a line of a script asks of a replica. -/
inductive Call
  | pump
  | tick
  | enqueue (entry : ThreadEntry)
  /-- Hand over message number `k` of those replica number `i` has broadcast. -/
  | deliver (i k : Nat)
  /-- Hand over a message that a Byzantine replica has signed. -/
  | inject (payload : Payload)

/-- A line of a script: which replica is called, when and how. -/
structure Line where
  replica : Nat
  time : Nat
  call : Call

namespace Group

variable (G : Group)

/-- The states of the replicas, given in the order of `ReplicaDids`. -/
def cluster (l : List Backend) : Cluster := fun did =>
  (l[G.thread.replicaDids.idxOf did]?).getD (newTendermintBackend (G.node did) .empty)

/-- The event a call is, if there is such a message. -/
def event (l : List Backend) : Call → Option Event
  | .pump => some .pump
  | .tick => some .tick
  | .enqueue entry => some (.enqueue entry)
  | .deliver i k => do
    let did ← G.thread.replicaDids[i]?
    let e ← l[i]?
    let msg ← (broadcasts e.trace)[k]?
    if did ∉ G.byzantine ∧ signer msg.payload = some did then some (.inbound msg) else none
  | .inject payload =>
    if (signer payload).any fun did => did ∈ G.byzantine then
      some (.inbound ⟨G.thread.id, payload⟩)
    else none

/-- Play a script, as long as every event passes `check`. -/
def exec (check : Backend → Event → Bool) : List Backend → List Line → Option (List Backend)
  | l, [] => some l
  | l, line :: lines => do
    let did ← G.thread.replicaDids[line.replica]?
    let e ← l[line.replica]?
    let ev ← G.event l line.call
    if did ∉ G.byzantine ∧ check e ev then
      match step (G.node did) (clock line.time) e ev with
      | .ok e' => exec check (l.set line.replica e') lines
      | .error _ => none
    else none

/-- A message that is delivered has been broadcast under its sender's name, or a Byzantine replica
has signed it. -/
def Sourced (S : Cluster) (a : Action) : Prop := ∀ msg, a.event = .inbound msg →
  (∃ did, G.Correct did ∧ msg ∈ broadcasts (S did).trace ∧ signer msg.payload = some did) ∨
    ∃ did ∈ G.byzantine, signer msg.payload = some did

/-- No database call fails and the call returns. -/
structure Faultless (S : Cluster) (a : Action) : Prop where
  writes : ∀ w, a.env.fails w = false
  reads : ∀ r, a.env.readFails r = false
  returns : ∃ e', step (G.node a.did) a.env (S a.did) a.event = .ok e'

variable {G}

theorem cluster_of_getElem? {i : Nat} {did : String} {e : Backend}
    (hdid : G.thread.replicaDids[i]? = some did) (he : l[i]? = some e) : G.cluster l did = e := by
  obtain ⟨hi, rfl⟩ := List.getElem?_eq_some_iff.mp hdid
  rw [cluster, G.nodup.idxOf_getElem, he]
  rfl

theorem cluster_set {i : Nat} {did : String} {e : Backend} (e' : Backend)
    (hdid : G.thread.replicaDids[i]? = some did) (he : l[i]? = some e) :
    G.cluster (l.set i e') = Function.update (G.cluster l) did e' := by
  funext d
  by_cases hd : d = did
  · subst hd
    rw [Function.update_self]
    refine cluster_of_getElem? hdid ?_
    exact List.getElem?_set_self (List.getElem?_eq_some_iff.mp he).1
  · rw [Function.update_of_ne hd, cluster, cluster]
    have hne : i ≠ G.thread.replicaDids.idxOf d := by
      rintro rfl
      obtain ⟨hi, heq⟩ := List.getElem?_eq_some_iff.mp hdid
      exact hd ((List.getElem_idxOf hi).symm.trans heq)
    rw [List.getElem?_set_ne hne]

theorem Sourced.authentic {S : Cluster} {a : Action} (h : G.Sourced S a) : G.Authentic S a := by
  rintro ⟨t, payload⟩ hmsg
  rcases h _ hmsg with ⟨did, -, hb, hs⟩ | ⟨did, hbyz, hs⟩
  · exact unforged_of_broadcast hb hs
  · cases payload with
    | vote v =>
      obtain rfl := Option.some.inj hs
      exact fun hc _ _ => absurd hbyz hc.2
    | proposal p =>
      obtain rfl := Option.some.inj hs
      exact fun _ _ hc _ _ => absurd hbyz hc.2
    | committedBlock b => cases hs

theorem sourced_of_event {call : Call} {a : Action}
    (h : G.event l call = some a.event) : G.Sourced (G.cluster l) a := by
  intro msg hmsg
  rw [hmsg] at h
  cases call with
  | pump => cases h
  | tick => cases h
  | enqueue entry => cases h
  | deliver i k =>
    obtain ⟨did, hdid, h⟩ := Option.bind_eq_some_iff.mp h
    obtain ⟨e, he, h⟩ := Option.bind_eq_some_iff.mp h
    obtain ⟨m, hm, h⟩ := Option.bind_eq_some_iff.mp h
    obtain ⟨⟨hc, hs⟩, h⟩ := Option.ite_none_right_eq_some.mp h
    obtain rfl := Event.inbound.inj (Option.some.inj h)
    refine .inl ⟨did, ⟨List.mem_of_getElem? hdid, hc⟩, ?_, hs⟩
    rw [cluster_of_getElem? hdid he]
    exact List.mem_of_getElem? hm
  | inject payload =>
    obtain ⟨hs, h⟩ := Option.ite_none_right_eq_some.mp h
    obtain rfl := Event.inbound.inj (Option.some.inj h)
    obtain ⟨did, hs, hbyz⟩ := (Option.any_eq_true _ _).mp hs
    exact .inr ⟨did, of_decide_eq_true hbyz, hs⟩

/-- **What a script plays is a run** in which nothing is forged and nothing fails. -/
theorem exec_run {check : Backend → Event → Bool} {l' : List Backend} {lines : List Line}
    (h : G.exec check l lines = some l') :
    G.Run (fun S a => G.Sourced S a ∧ G.Faultless S a ∧ check (S a.did) a.event = true)
      (G.cluster l) (G.cluster l') := by
  induction lines generalizing l with
  | nil =>
    obtain rfl := Option.some.inj h
    exact .refl
  | cons line lines ih =>
    obtain ⟨did, hdid, h⟩ := Option.bind_eq_some_iff.mp h
    obtain ⟨e, he, h⟩ := Option.bind_eq_some_iff.mp h
    obtain ⟨ev, hev, h⟩ := Option.bind_eq_some_iff.mp h
    obtain ⟨⟨hcorrect, hcheck⟩, h⟩ := Option.ite_none_right_eq_some.mp h
    have hcl := cluster_of_getElem? hdid he
    split at h
    case h_2 => cases h
    case h_1 e' hstep =>
      refine .head ⟨⟨did, clock line.time, ev⟩, ⟨List.mem_of_getElem? hdid, hcorrect⟩, ?_, ?_⟩ (ih h)
      · refine ⟨sourced_of_event hev, ⟨fun _ => rfl, fun _ => rfl, e', ?_⟩, ?_⟩
        · rw [hcl]
          exact hstep
        · rw [hcl]
          exact hcheck
      · rw [cluster_set e' hdid he, after, hcl, hstep]
        rfl

variable (G) in
/-- The replicas on empty stores. -/
def fresh : List Backend :=
  G.thread.replicaDids.map fun did => newTendermintBackend (G.node did) .empty

theorem initial_fresh : G.Initial (G.cluster G.fresh) := by
  intro did
  refine ⟨.empty, Store.fresh_empty _, ?_⟩
  by_cases hmem : did ∈ G.thread.replicaDids
  · have hi := List.idxOf_lt_length_of_mem hmem
    refine cluster_of_getElem? (i := G.thread.replicaDids.idxOf did) ?_ ?_
    · rw [List.getElem?_eq_getElem hi, List.getElem_idxOf hi]
    · rw [fresh, List.getElem?_map, List.getElem?_eq_getElem hi, List.getElem_idxOf hi]
      rfl
  · rw [cluster, List.idxOf_eq_length hmem, fresh, List.getElem?_eq_none (by simp)]
    rfl

/-- What a script shows of the replicas at its end is so at the end of a run. -/
theorem exec_outcome {α : Type} {check : Backend → Event → Bool} {lines : List Line}
    {f : Backend → α} {as : List α} (h : (G.exec check G.fresh lines).map (List.map f) = some as) :
    ∃ S, G.Run (fun S a => G.Sourced S a ∧ G.Faultless S a ∧ check (S a.did) a.event = true)
        (G.cluster G.fresh) S ∧
      ∀ (i : Nat) did a, G.thread.replicaDids[i]? = some did → as[i]? = some a → f (S did) = a := by
  obtain ⟨l, hexec, rfl⟩ := Option.map_eq_some_iff.mp h
  refine ⟨G.cluster l, exec_run hexec, ?_⟩
  intro i did a hdid ha
  rw [List.getElem?_map] at ha
  obtain ⟨e, he, rfl⟩ := Option.map_eq_some_iff.mp ha
  rw [cluster_of_getElem? hdid he]

end Group

/-! ## A group of four

The second of four replicas is Byzantine.  DIDs are written out in bytes, which
spares the kernel from decoding them. -/

namespace Quartet

/-- `did:key:z6MkeXBLjYiSvqnhFb6D7sHm8yKm4jV45wwBFRaatf1cfZ76`, the DID of a key of bytes 1. -/
def did1 : String := .ofByteArray ⟨#[
    100, 105, 100, 58, 107, 101, 121, 58, 122, 54, 77, 107, 101, 88, 66, 76, 106, 89, 105, 83,
    118, 113, 110, 104, 70, 98, 54, 68, 55, 115, 72, 109, 56, 121, 75, 109, 52, 106, 86, 52, 53,
    119, 119, 66, 70, 82, 97, 97, 116, 102, 49, 99, 102, 90, 55, 54]⟩ ⟨[
    'd', 'i', 'd', ':', 'k', 'e', 'y', ':', 'z', '6', 'M', 'k', 'e', 'X', 'B', 'L', 'j', 'Y',
    'i', 'S', 'v', 'q', 'n', 'h', 'F', 'b', '6', 'D', '7', 's', 'H', 'm', '8', 'y', 'K', 'm',
    '4', 'j', 'V', '4', '5', 'w', 'w', 'B', 'F', 'R', 'a', 'a', 't', 'f', '1', 'c', 'f', 'Z',
    '7', '6'], by decide +kernel⟩

/-- `did:key:z6Mkeb6dsrBTX95vPgLiZAcgRr6XJthFm1czoqFEx34DQtRo`, the DID of a key of bytes 2. -/
def did2 : String := .ofByteArray ⟨#[
    100, 105, 100, 58, 107, 101, 121, 58, 122, 54, 77, 107, 101, 98, 54, 100, 115, 114, 66, 84,
    88, 57, 53, 118, 80, 103, 76, 105, 90, 65, 99, 103, 82, 114, 54, 88, 74, 116, 104, 70, 109,
    49, 99, 122, 111, 113, 70, 69, 120, 51, 52, 68, 81, 116, 82, 111]⟩ ⟨[
    'd', 'i', 'd', ':', 'k', 'e', 'y', ':', 'z', '6', 'M', 'k', 'e', 'b', '6', 'd', 's', 'r',
    'B', 'T', 'X', '9', '5', 'v', 'P', 'g', 'L', 'i', 'Z', 'A', 'c', 'g', 'R', 'r', '6', 'X',
    'J', 't', 'h', 'F', 'm', '1', 'c', 'z', 'o', 'q', 'F', 'E', 'x', '3', '4', 'D', 'Q', 't',
    'R', 'o'], by decide +kernel⟩

/-- `did:key:z6Mkef1w29eU7SP9XmbDzTwbiisHZ3uTS5JpNEuu1R6pADkW`, the DID of a key of bytes 3. -/
def did3 : String := .ofByteArray ⟨#[
    100, 105, 100, 58, 107, 101, 121, 58, 122, 54, 77, 107, 101, 102, 49, 119, 50, 57, 101, 85,
    55, 83, 80, 57, 88, 109, 98, 68, 122, 84, 119, 98, 105, 105, 115, 72, 90, 51, 117, 84, 83,
    53, 74, 112, 78, 69, 117, 117, 49, 82, 54, 112, 65, 68, 107, 87]⟩ ⟨[
    'd', 'i', 'd', ':', 'k', 'e', 'y', ':', 'z', '6', 'M', 'k', 'e', 'f', '1', 'w', '2', '9',
    'e', 'U', '7', 'S', 'P', '9', 'X', 'm', 'b', 'D', 'z', 'T', 'w', 'b', 'i', 'i', 's', 'H',
    'Z', '3', 'u', 'T', 'S', '5', 'J', 'p', 'N', 'E', 'u', 'u', '1', 'R', '6', 'p', 'A', 'D',
    'k', 'W'], by decide +kernel⟩

/-- `did:key:z6MkeiwEAT7UhjgNfrqjRmGX1be3oD7f78zdveaZ4o9QuZ5D`, the DID of a key of bytes 4. -/
def did4 : String := .ofByteArray ⟨#[
    100, 105, 100, 58, 107, 101, 121, 58, 122, 54, 77, 107, 101, 105, 119, 69, 65, 84, 55, 85,
    104, 106, 103, 78, 102, 114, 113, 106, 82, 109, 71, 88, 49, 98, 101, 51, 111, 68, 55, 102,
    55, 56, 122, 100, 118, 101, 97, 90, 52, 111, 57, 81, 117, 90, 53, 68]⟩ ⟨[
    'd', 'i', 'd', ':', 'k', 'e', 'y', ':', 'z', '6', 'M', 'k', 'e', 'i', 'w', 'E', 'A', 'T',
    '7', 'U', 'h', 'j', 'g', 'N', 'f', 'r', 'q', 'j', 'R', 'm', 'G', 'X', '1', 'b', 'e', '3',
    'o', 'D', '7', 'f', '7', '8', 'z', 'd', 'v', 'e', 'a', 'Z', '4', 'o', '9', 'Q', 'u', 'Z',
    '5', 'D'], by decide +kernel⟩

/-- The key of the replica with number `i`. -/
def key (i : Nat) : List UInt8 := List.replicate 32 (UInt8.ofNat i)

/-- A signature scheme that is quick to evaluate.  It need not be hard to forge: that nothing is
forged is part of what a run is. -/
def checksum : Ed25519 where
  sign sk m := [sk.foldl (· + ·) 0 + m.foldl (· + ·) 0]
  verify pk m sig := sig == [pk.foldl (· + ·) 0 + m.foldl (· + ·) 0]

/-- The thread of the four replicas. -/
def thread : Thread where
  id := "t"
  creatorDid := did1
  replicaDids := [did1, did2, did3, did4]
  n := 4
  f := 1
  epochMs := 1000
  createdAt := 0
  metadata := []

/-- The group of the four replicas, with those in `byzantine` not running the code. -/
def group (byzantine : Finset String) (h : byzantine.card ≤ 1) : Group where
  thread := thread
  crypto := checksum
  key did := if did = did1 then key 1 else if did = did2 then key 2 else
    if did = did3 then key 3 else key 4
  f := 1
  byzantine := byzantine
  f_eq := rfl
  length_eq := rfl
  nodup := by decide +kernel
  byzantine_card := h

/-- The group in which `did2` is Byzantine. -/
def G : Group := group {did2} (by decide +kernel)

/-- The group in which all four replicas run the code. -/
def allCorrect : Group := group ∅ (by decide)

/-- A block `did2` makes up: the hash is not that of any block. -/
def block (round : Int32) (H : String) : ThreadBlock where
  threadId := "t"
  height := 1
  round := round
  parentHash := ""
  entries := []
  proposerDid := did2
  proposerSig := ""
  blockHash := H
  committedAt := 0

/-- A proposal signed by `did2`. -/
def proposal (round polRound : Int32) (block : ThreadBlock) : Payload :=
  .proposal {
    threadId := "t", height := 1, round, polRound, block := some block, proposerDid := did2,
    signature := hexEncode (checksum.sign (key 2) (proposalSigData "t" 1 round block.blockHash)) }

/-- A vote signed by `did2`. -/
def vote (round : Int32) (type : VoteType) (H : String) : Payload :=
  .vote {
    threadId := "t", height := 1, round, type, blockHash := H, voterDid := did2,
    signature := hexEncode (checksum.sign (key 2) (voteSigData "t" 1 round type H)) }

/-- Replica number `i` sees `n` timeouts pass. -/
def timeouts (i n : Nat) : List Line := (List.range n).map fun k => ⟨i, 2000 * (k + 1), .tick⟩

end Quartet

end MoltMesh.Tendermint

import MoltMesh.Archive.Walk
import MoltMesh.Ownership

/-!
# Recovered histories

`recoverThreadHistory` of `daemon/rpc/server_threads.go` and `ArchiveWorker.Sync` of
`daemon/thread/archive_worker.go` import what peers answer about a thread: a descriptor that
the creator it names has signed, and a chain of blocks whose hashes fit together.

A replica vouches for a block by its signature of the block's hash, and for the blocks
below, whose hashes that hash depends on.  The signature is stored and sent with the blocks,
but it is not looked at, so whether a history is vouched for depends on the block at its head
(`recovered_history_authentic_iff`).
-/

namespace MoltMesh

open MoltMesh.Lib Pb

universe v

variable {σ : Type v}

/-! ## Fetching a history -/

/-- The backend a descriptor names; without one it is Raft. -/
def backendOf (th : Thread) : BackendKind :=
  if backendText th.metadata = "" then .raft else .ofText (backendText th.metadata)

/-- The errors of `recoverThreadHistory` and `Sync`; where their texts differ, that of `Sync` is second. -/
inductive HistoryError
  /-- `thread id is required`; `thread id required`. -/
  | idRequired
  /-- `thread recovery requires DHT and Bitswap`; `archive worker is not fully configured`. -/
  | unconfigured
  /-- `archive sync already in progress for %q`. -/
  | inProgress (threadID : String)
  | resolve (err : ResolveError)
  /-- `published thread descriptor is unavailable`. -/
  | unavailable
  /-- `verify thread descriptor: %w`; `verify archive descriptor: %w`. -/
  | descriptor (err : DescriptorError)
  /-- The error itself; `verify archive chain: %w`. -/
  | walk (err : WalkError ResolveError)
  /-- The error itself; `persist verified archive: %w`. -/
  | importHistory (err : String)
  /-- `retain archive block: %w`. -/
  | retain (err : String)
  | advertise (err : String)
  | acknowledge (err : String)
deriving DecidableEq

/-- What is made of the answers of the peers. -/
inductive Fetched
  | panics
  | fails (err : HistoryError)
  | ok (th : Thread) (blocks : List ThreadBlock)
deriving DecidableEq

/-- The part that `recoverThreadHistory` and `Sync` have in common.  The head is resolved twice, for the
descriptor and for the chain. -/
def fetchHistory (C : Ed25519) (P : Peers σ) (threadID : String) (st : σ) : Fetched :=
  match P.resolveHead threadID st with
  | (.error err, _) => .fails (.resolve err)
  | (.ok head, st) => match head.thread with
    | none => .fails .unavailable
    | some th =>
      if th.id ≠ threadID then .fails .unavailable
      else match verifyDescriptor C th with
        | none => .panics
        | some (.error err) => .fails (.descriptor err)
        | some (.ok ()) => match (verifyChainFromHead (backendOf th) threadID P.lookups st).outcome with
          | .panics => .panics
          | .returns (.error err) => .fails (.walk err)
          | .returns (.ok blocks) => .ok th blocks

/-- `recoverThreadHistory`.  Without a node `P` is none; there is no result when the call panics. -/
def recoverThreadHistory (C : Ed25519) (P : Option (Peers σ)) (m : ActorManager) (env : ManagerEnv)
    (threadID : String) (st : σ) : Option (Except HistoryError Thread × ActorManager) :=
  if threadID = "" then some (.error .idRequired, m)
  else match P with
    | none => some (.error .unconfigured, m)
    | some P => match fetchHistory C P threadID st with
      | .panics => none
      | .fails err => some (.error err, m)
      | .ok th blocks => match m.importHistory env th blocks with
        | .error err => some (.error (.importHistory err), m)
        | .ok m => some (.ok th, m)

/-! ## The archive worker -/

/-- `pb.ArchiveAcknowledgement`. -/
structure ArchiveAcknowledgement where
  threadId : String
  providerDid : String
  blockHash : String
  acknowledgedAtUnixMs : Int
  signature : List UInt8
deriving DecidableEq

/-- The statements and calls of the worker that may fail. -/
inductive ArchiveCall
  | importHistory
  /-- A fetched block is put into the block store. -/
  | retain
  | advertise
  | saveAcknowledgement

/-- What the environment decides during one call of the worker. -/
structure ArchiveEnv where
  now : Int
  fails : ArchiveCall → Option String

/-- `ArchiveWorker`, with the tables it writes. -/
structure ArchiveWorker where
  id : Identity
  configured : Bool
  store : Store
  acknowledgements : Table ArchiveAcknowledgement fun a => (a.threadId, a.providerDid, a.blockHash)
  inFlight : List String

/-- The deterministic protobuf encoding of an acknowledgement without its signature. -/
def ArchiveAcknowledgement.bytes (a : ArchiveAcknowledgement) : List UInt8 :=
  protoBytes 1 (Lib.bytes a.threadId) ++ protoBytes 2 (Lib.bytes a.providerDid) ++
    protoBytes 3 (Lib.bytes a.blockHash) ++ protoInt 4 a.acknowledgedAtUnixMs

/-- `NewArchiveAcknowledgement`. -/
def newArchiveAcknowledgement (C : Ed25519) (id : Identity) (threadID blockHash : String) (now : Int) :
    Except String ArchiveAcknowledgement :=
  if threadID = "" ∨ blockHash = "" then
    .error "archive acknowledgement requires identity, thread id, and block hash"
  else
    let ack : ArchiveAcknowledgement := ⟨threadID, id.did, blockHash, now, []⟩
    .ok { ack with signature := id.sign C ack.bytes }

/-- `VerifyArchiveAcknowledgement`; there is no result when `ed25519.Verify` panics. -/
def verifyArchiveAcknowledgement (C : Ed25519) (ack : ArchiveAcknowledgement) : Option (Except String Unit) :=
  if ack.threadId = "" ∨ ack.providerDid = "" ∨ ack.blockHash = "" ∨ ack.signature = [] then
    some (.error "invalid archive acknowledgement")
  else (Identity.verifyDID C ack.providerDid ack.bytes ack.signature).map fun
    | .ok true => .ok ()
    | _ => .error "invalid archive acknowledgement signature"

namespace ArchiveWorker

variable (C : Ed25519) (w : ArchiveWorker) (env : ArchiveEnv)

/-- `SaveArchiveAcknowledgement`. -/
def saveArchiveAcknowledgement (ack : ArchiveAcknowledgement) : Option (Except String ArchiveWorker) :=
  match verifyArchiveAcknowledgement C ack with
  | none => none
  | some (.error err) => some (.error ("verify archive acknowledgement: " ++ err))
  | some (.ok ()) => match env.fails .saveAcknowledgement with
    | some err => some (.error err)
    | none => some (.ok { w with acknowledgements := w.acknowledgements.insertOrReplace ack })

/-- The end of `Sync`, when the history has been imported: the blocks are retained and the newest one is
acknowledged. -/
def acknowledge (threadID : String) (chain : List ThreadBlock) :
    Option (Except HistoryError ArchiveAcknowledgement × ArchiveWorker) :=
  match env.fails .retain with
  | some err => some (.error (.retain err), w)
  | none => match env.fails .advertise with
    | some err => some (.error (.advertise err), w)
    | none => match chain.getLast? with
      | none => none
      | some b => match newArchiveAcknowledgement C w.id threadID b.blockHash env.now with
        | .error err => some (.error (.acknowledge err), w)
        | .ok ack => match w.saveArchiveAcknowledgement C env ack with
          | none => none
          | some (.error err) => some (.error (.acknowledge err), w)
          | some (.ok w) => some (.ok ack, w)

/-- `Sync`; there is no result when the call panics.  The thread is in flight during the call only. -/
def sync (P : Peers σ) (threadID : String) (st : σ) :
    Option (Except HistoryError ArchiveAcknowledgement × ArchiveWorker) :=
  if w.configured = false then some (.error .unconfigured, w)
  else if threadID = "" then some (.error .idRequired, w)
  else if threadID ∈ w.inFlight then some (.error (.inProgress threadID), w)
  else match fetchHistory C P threadID st with
    | .panics => none
    | .fails err => some (.error err, w)
    | .ok th chain => match w.store.importHistory th chain with
      | none => some (.error (.importHistory "invalid recovery thread"), w)
      | some store => match env.fails .importHistory with
        | some err => some (.error (.importHistory err), w)
        | none => acknowledge C { w with store } env threadID chain

variable {C w env}

theorem acknowledge_store {threadID : String} {chain : List ThreadBlock} {ack : ArchiveAcknowledgement}
    {w' : ArchiveWorker} (h : w.acknowledge C env threadID chain = some (.ok ack, w')) : w'.store = w.store := by
  unfold acknowledge at h
  split at h
  · cases h
  split at h
  · cases h
  split at h
  · cases h
  split at h
  · cases h
  split at h
  · cases h
  · cases h
  rename_i hsave
  unfold saveArchiveAcknowledgement at hsave
  split at hsave
  · cases hsave
  · cases hsave
  split at hsave
  · cases hsave
  · cases hsave
    cases h
    rfl

end ArchiveWorker

/-! ## Who vouches for a history -/

section Vouching

variable (C : Ed25519) (dids : List String)

/-- A block carries the signature of one of `dids`, as a proposer signs. -/
def Vouched (b : ThreadBlock) : Prop :=
  ∃ did ∈ dids, ∃ sig ∈ hexDecode b.proposerSig,
    Identity.verifyDID C did (proposalSigData b.threadId b.height b.round b.blockHash) sig = some (.ok true)

/-- A block of a chain carries a signature or is below one that does. -/
def Covered (chain : List ThreadBlock) (b : ThreadBlock) : Prop :=
  ∃ c ∈ chain, b.height ≤ c.height ∧ Vouched C dids c

variable {C dids} {chain : List ThreadBlock}

/-- In a chain the newest block covers all, and nothing else covers it. -/
theorem forall_covered_iff {h : Int} {p : String} (hlinked : blockLinks.Linked h p chain) (hne : chain ≠ []) :
    (∀ b ∈ chain, Covered C dids chain b) ↔ ∃ b ∈ chain.getLast?, Vouched C dids b := by
  have hlast := List.getLast?_eq_some_getLast hne
  have htop (b : ThreadBlock) (hb : b ∈ chain) : b = chain.getLast hne ∨ b.height < (chain.getLast hne).height := by
    have hsplit := List.dropLast_append_getLast hne
    have hpair := hlinked.pairwise
    rw [← hsplit] at hb hpair
    rcases List.mem_append.mp hb with hb | hb
    · exact .inr ((List.pairwise_append.mp hpair).2.2 b hb _ (List.mem_singleton_self _))
    · exact .inl (List.mem_singleton.mp hb)
  constructor
  · intro h
    obtain ⟨c, hc, hle, hvouched⟩ := h _ (List.getLast_mem hne)
    rcases htop c hc with rfl | hlt
    · exact ⟨_, hlast, hvouched⟩
    · exact absurd hle (not_le.mpr hlt)
  · rintro ⟨c, hc, hvouched⟩ b hb
    rw [hlast] at hc
    obtain rfl := Option.some.inj hc
    refine ⟨_, List.getLast_mem hne, ?_, hvouched⟩
    rcases htop b hb with rfl | hlt
    · exact le_rfl
    · exact hlt.le

end Vouching

/-- What has been fetched is a chain of the thread with a verified descriptor. -/
theorem fetchHistory_eq_ok {C : Ed25519} {P : Peers σ} {threadID : String} {st : σ} {th : Thread}
    {blocks : List ThreadBlock} (h : fetchHistory C P threadID st = .ok th blocks) :
    Verified C th ∧ th.id = threadID ∧ blocks ≠ [] ∧ blockLinks.Linked 1 "" blocks ∧
      ∀ b ∈ blocks, b.threadId = threadID := by
  unfold fetchHistory at h
  split at h
  · cases h
  split at h
  · cases h
  split at h
  · cases h
  rename_i hid
  split at h
  · cases h
  · cases h
  rename_i hverified
  split at h
  · cases h
  · cases h
  rename_i hwalk
  obtain ⟨rfl, rfl⟩ := Fetched.ok.inj h
  obtain ⟨head, st', hhead, -, hlen, hlinked, -, hall⟩ := verifyChainFromHead_eq_ok hwalk
  refine ⟨hverified, not_not.mp hid, ?_, hlinked, fun b hb => (hall b hb).1⟩
  rintro rfl
  have hpos := Peers.height_of_resolveHead hhead
  rw [List.length_nil] at hlen
  omega

/-- **When a recovered history is authentic**: every block that is imported carries a replica's signature or
is below one that does, exactly if the newest block carries one. -/
theorem recovered_history_authentic_iff (C : Ed25519) (P : Peers σ) (threadID : String) (st : σ) :
    (∀ m env th m', recoverThreadHistory C (some P) m env threadID st = some (.ok th, m') →
      ∃ blocks, fetchHistory C P threadID st = .ok th blocks ∧ m.importHistory env th blocks = .ok m' ∧
        ((∀ b ∈ blocks, Covered C th.replicaDids blocks b) ↔
          ∃ b ∈ blocks.getLast?, Vouched C th.replicaDids b)) ∧
    ∀ w env ack w', ArchiveWorker.sync C w env P threadID st = some (.ok ack, w') →
      ∃ th blocks, fetchHistory C P threadID st = .ok th blocks ∧
        w.store.importHistory th blocks = some w'.store ∧
        ((∀ b ∈ blocks, Covered C th.replicaDids blocks b) ↔
          ∃ b ∈ blocks.getLast?, Vouched C th.replicaDids b) := by
  constructor
  · intro m env th m' h
    unfold recoverThreadHistory at h
    split at h
    · cases h
    dsimp only at h
    split at h
    · cases h
    · cases h
    rename_i th' blocks hfetch
    split at h
    · cases h
    rename_i m₁ himport
    cases h
    obtain ⟨-, -, hne, hlinked, -⟩ := fetchHistory_eq_ok hfetch
    exact ⟨blocks, hfetch, himport, forall_covered_iff hlinked hne⟩
  · intro w env ack w' h
    unfold ArchiveWorker.sync at h
    split at h
    · cases h
    split at h
    · cases h
    split at h
    · cases h
    split at h
    · cases h
    · cases h
    rename_i th blocks hfetch
    split at h
    · cases h
    rename_i store himport
    split at h
    · cases h
    obtain ⟨-, -, hne, hlinked, -⟩ := fetchHistory_eq_ok hfetch
    exact ⟨th, blocks, hfetch, by rw [himport, ArchiveWorker.acknowledge_store h],
      forall_covered_iff hlinked hne⟩

namespace Forgery

open Tendermint.Quartet (did1 did2 did4 key checksum)
open ActorManager.Family (newer stranger calm)

/-- Peers with one block, and a head with the given descriptor that points to it. -/
def publisher (th : Thread) (b : ThreadBlock) : Peers Unit where
  getValue _ _ := (.ok { threadID := "t", height := b.height, blockCid := "bafy", blockHash := b.blockHash,
                         thread := some th }, ())
  getBlock _ _ := (.ok b, ())
  decodes _ := true

/-- A signature scheme in which the replicas have signed nothing but the creator's descriptor; the fourth
agent, who is not a replica, signs what it wants. -/
def deedOnly : Ed25519 where
  sign _ _ := [1]
  verify pub msg _ := pub = key 4 ∨ pub = key 1 ∧ msg = descriptorBytes newer

/-- The archive of the fourth agent. -/
def archive : ArchiveWorker := ⟨⟨did4, key 4⟩, true, .empty, .empty, []⟩

/-- Nothing fails. -/
def quiet : ArchiveEnv := ⟨1, fun _ => none⟩

/-- **A history nobody has signed is imported**: a block that some peer made up goes with the creator's
descriptor, and both nodes store it. -/
theorem forged_history_imported :
    fetchHistory deedOnly (publisher newer (emptyBlock 1 "")) "t" () = .ok newer [emptyBlock 1 ""] ∧
    (recoverThreadHistory deedOnly (some (publisher newer (emptyBlock 1 ""))) stranger calm "t" ()).map
      (fun r => (r.1, r.2.db.getBlock "t" 1)) = some (.ok newer, some (emptyBlock 1 "")) ∧
    (archive.sync deedOnly quiet (publisher newer (emptyBlock 1 "")) "t" ()).map
      (fun r => (r.1.isOk, r.2.store.getBlock "t" 1)) = some (true, some (emptyBlock 1 "")) ∧
    ¬Covered deedOnly newer.replicaDids [emptyBlock 1 ""] (emptyBlock 1 "") := by
  refine ⟨by decide +kernel, by decide +kernel, by decide +kernel, ?_⟩
  rintro ⟨c, hc, -, did, hdid, sig, hsig, hverify⟩
  obtain rfl := List.mem_singleton.mp hc
  have hnone : ∀ did ∈ newer.replicaDids, ∀ sig ∈ hexDecode (emptyBlock 1 "").proposerSig,
      Identity.verifyDID deedOnly did (proposalSigData "t" 1 1 (emptyBlock 1 "").blockHash) sig =
        some (.ok false) := by decide +kernel
  have hfalse := (hnone did hdid sig hsig).symm.trans hverify
  cases hfalse

/-- The descriptor of a Tendermint thread. -/
def charter : Thread :=
  let th : Thread := { newer with metadata := [("backend", "tendermint")] }
  (signDescriptor checksum th ⟨did1, key 1⟩).getD th

/-- A block that the second replica has proposed and signed. -/
def signedBlock : ThreadBlock :=
  let b : ThreadBlock := { emptyBlock 1 "" with proposerDid := did2 }
  let b := { b with blockHash := computeBlockHash b }
  { b with proposerSig := hexEncode (checksum.sign (key 2) (proposalSigData "t" 1 1 b.blockHash)) }

/-- A history that a replica has signed is imported, and covered. -/
theorem recovered_history_authentic_signed :
    ∃ m' ack w', recoverThreadHistory checksum (some (publisher charter signedBlock)) stranger calm "t" () =
        some (.ok charter, m') ∧
      archive.sync checksum quiet (publisher charter signedBlock) "t" () = some (.ok ack, w') ∧
      Covered checksum charter.replicaDids [signedBlock] signedBlock := by
  have hfetch : fetchHistory checksum (publisher charter signedBlock) "t" () = .ok charter [signedBlock] := by
    decide +kernel
  have hvouched : Vouched checksum charter.replicaDids signedBlock :=
    ⟨did2, by decide +kernel, (hexDecode signedBlock.proposerSig).getD [], by decide +kernel, by decide +kernel⟩
  have hrecover : ∃ m', recoverThreadHistory checksum (some (publisher charter signedBlock)) stranger calm "t" () =
      some (.ok charter, m') := by
    rw [recoverThreadHistory, if_neg (by decide), hfetch]
    exact ⟨_, rfl⟩
  have hsync : ∃ ack w', archive.sync checksum quiet (publisher charter signedBlock) "t" () =
      some (.ok ack, w') := by
    have hok : ((archive.sync checksum quiet (publisher charter signedBlock) "t" ()).map (·.1.isOk)) =
        some true := by decide +kernel
    match h : archive.sync checksum quiet (publisher charter signedBlock) "t" () with
    | none => rw [h] at hok; cases hok
    | some (.error err, w') => rw [h] at hok; cases hok
    | some (.ok ack, w') => exact ⟨ack, w', rfl⟩
  obtain ⟨m', hm⟩ := hrecover
  obtain ⟨ack, w', hw⟩ := hsync
  refine ⟨m', ack, w', hm, hw, ?_⟩
  obtain ⟨blocks, hblocks, -, hiff⟩ :=
    (recovered_history_authentic_iff checksum (publisher charter signedBlock) "t" ()).1 _ _ _ _ hm
  obtain ⟨-, rfl⟩ := Fetched.ok.inj (hfetch.symm.trans hblocks)
  exact hiff.mpr ⟨signedBlock, rfl, hvouched⟩ signedBlock (List.mem_singleton_self _)

end Forgery

end MoltMesh

import MoltMesh.Archive.Walk
import MoltMesh.Lib.Reading
import MoltMesh.Manager
import MoltMesh.Ownership

/-!
# Who may recover a thread

`authorizeRecoveryHandle` of `daemon/rpc/server_threads.go`: whoever holds a recovery secret may
have the history of a thread imported from what peers answer.

The secret is checked against a descriptor that verifies against the creator it names, which is
not compared with the creator the node has stored (`recovery_bound_to_creator_iff`).
-/

namespace MoltMesh

open MoltMesh.Lib Pb

universe v

variable {σ : Type v}

/-! ## Capabilities -/

/-- `RecoveryCommitmentMetadataKey`. -/
def recoveryCommitmentMetadataKey : String := "recovery_capability_sha256"

/-- `RecoveryCommitment`. -/
def recoveryCommitment (secret : List UInt8) : Except String String :=
  if secret.length ≠ 32 then .error "recovery secret must be 32 bytes"
  else .ok (hexEncode (Sha256.sum256 secret))

/-- `MatchesRecoveryCommitment`. -/
def matchesRecoveryCommitment (secret : List UInt8) (commitment : String) : Bool :=
  match recoveryCommitment secret with
  | .error _ => false
  | .ok actual => if (bytes commitment).length ≠ 2 * 32 then false else bytes actual = bytes commitment

/-- The commitment in a descriptor; a missing key gives the empty text. -/
def commitmentOf (th : Thread) : String := (th.metadata.lookup recoveryCommitmentMetadataKey).getD ""

/-- The table `thread_recovery_capabilities`: the hash of the secret of a thread. -/
abbrev Capabilities := Table (String × List UInt8) Prod.fst

namespace Capabilities

/-- `SaveRecoveryCapability`; there is no result when the capability is not valid. -/
def saveRecoveryCapability (caps : Capabilities) (threadID : String) (secret : List UInt8) :
    Option Capabilities :=
  if threadID = "" ∨ secret.length ≠ 32 then none
  else some (caps.insertOrReplace (threadID, Sha256.sum256 secret))

/-- `AuthorizeRecoveryCapability`; `fails` is the error of the query. -/
def authorizeRecoveryCapability (caps : Capabilities) (fails : Option String) (threadID : String)
    (secret : List UInt8) : Except String Bool :=
  if threadID = "" ∨ secret.length ≠ 32 then .ok false
  else match fails with
    | some err => .error err
    | none => match caps.lookup threadID with
      | none => .ok false
      | some (_, expected) => .ok (decide (expected = Sha256.sum256 secret))

end Capabilities

/-- `pb.ThreadRecoveryHandle`. -/
structure RecoveryHandle where
  threadId : String
  recoverySecret : List UInt8

/-- `authorizeRecoveryHandle`.  Without a hash table `P` is none; there is no result when
`ed25519.Verify` panics. -/
def authorizeRecoveryHandle (C : Ed25519) (caps : Capabilities) (fails : Option String) (P : Option (Peers σ))
    (handle : RecoveryHandle) (st : σ) : Option (Except String Bool) :=
  match caps.authorizeRecoveryCapability fails handle.threadId handle.recoverySecret with
  | .error err => some (.error err)
  | .ok true => some (.ok true)
  | .ok false => match P with
    | none => some (.ok false)
    | some P => match (P.resolveHead handle.threadId st).1 with
      | .error _ => some (.ok false)
      | .ok head => match head.thread with
        | none => some (.ok false)
        | some th =>
          if th.id ≠ handle.threadId then some (.ok false)
          else match verifyDescriptor C th with
            | none => none
            | some (.error _) => some (.ok false)
            | some (.ok ()) => some (.ok (matchesRecoveryCommitment handle.recoverySecret (commitmentOf th)))

section Authorization

variable {C : Ed25519} {caps : Capabilities} {fails : Option String} {P : Option (Peers σ)}
  {handle : RecoveryHandle} {st : σ}

theorem matchesRecoveryCommitment_iff {secret : List UInt8} {commitment : String} :
    matchesRecoveryCommitment secret commitment = true ↔
      secret.length = 32 ∧ commitment = hexEncode (Sha256.sum256 secret) := by
  unfold matchesRecoveryCommitment recoveryCommitment
  by_cases hlen : secret.length = 32
  · rw [if_neg (not_not.mpr hlen)]
    dsimp only
    split
    case isTrue hsize =>
      refine iff_of_false (by decide) ?_
      rintro ⟨-, rfl⟩
      exact hsize (by rw [length_bytes_hexEncode, Sha256.length_sum256])
    case isFalse =>
      rw [decide_eq_true_eq, bytes_injective.eq_iff]
      exact ⟨fun h => ⟨hlen, h.symm⟩, fun h => h.2.symm⟩
  · rw [if_pos hlen]
    exact iff_of_false Bool.false_ne_true fun h => hlen h.1

/-- The hash of the secret is the one saved for the thread. -/
def LocallySaved (caps : Capabilities) (handle : RecoveryHandle) : Prop :=
  caps.lookup handle.threadId = some (handle.threadId, Sha256.sum256 handle.recoverySecret)

/-- A descriptor that `creator` has signed for the thread commits to `commitment`. -/
def CommittedBy (C : Ed25519) (creator threadID commitment : String) : Prop :=
  ∃ th : Thread, Verified C th ∧ th.creatorDid = creator ∧ th.id = threadID ∧ commitmentOf th = commitment

theorem authorizeRecoveryCapability_eq_true (h : caps.authorizeRecoveryCapability fails handle.threadId
    handle.recoverySecret = .ok true) : LocallySaved caps handle := by
  unfold Capabilities.authorizeRecoveryCapability at h
  split at h
  · cases h
  split at h
  · cases h
  split at h
  · cases h
  · rename_i key expected hlookup
    have hkey : key = handle.threadId := (Table.lookup_eq_some.mp hlookup).2
    have heq : expected = Sha256.sum256 handle.recoverySecret := of_decide_eq_true (Except.ok.inj h)
    rw [LocallySaved, hlookup, hkey, heq]

/-- The head that is resolved has a descriptor of the thread that verifies and fits the secret. -/
def Offered (C : Ed25519) (P : Option (Peers σ)) (handle : RecoveryHandle) (st : σ) (th : Thread) : Prop :=
  ∃ P' ∈ P, ∃ head, (P'.resolveHead handle.threadId st).1 = .ok head ∧ head.thread = some th ∧
    th.id = handle.threadId ∧ Verified C th ∧
    matchesRecoveryCommitment handle.recoverySecret (commitmentOf th) = true

/-- What a handle is authorized by. -/
theorem authorizeRecoveryHandle_eq_true :
    authorizeRecoveryHandle C caps fails P handle st = some (.ok true) ↔
      caps.authorizeRecoveryCapability fails handle.threadId handle.recoverySecret = .ok true ∨
      caps.authorizeRecoveryCapability fails handle.threadId handle.recoverySecret = .ok false ∧
        ∃ th, Offered C P handle st th := by
  unfold authorizeRecoveryHandle Offered
  rcases caps.authorizeRecoveryCapability fails handle.threadId handle.recoverySecret with err | (_ | _)
  · simp
  swap
  · simp
  cases P with
  | none => simp
  | some P =>
    simp only [Option.mem_def, Option.some.injEq, exists_eq_left', true_and, false_or,
      Except.ok.injEq, Bool.false_eq_true]
    cases (P.resolveHead handle.threadId st).1 with
    | error err => simp
    | ok head =>
      dsimp only
      cases hth : head.thread with
      | none => simp [hth]
      | some th =>
        dsimp only
        by_cases hid : th.id = handle.threadId
        swap
        · simp [hid, hth]
        by_cases hverified : Verified C th
        swap
        · rw [if_neg (not_not.mpr hid)]
          split
          · simp [hth, hverified]
          · simp [hth, hverified]
          · rename_i h
            exact absurd h hverified
        rw [if_neg (not_not.mpr hid), show verifyDescriptor C th = _ from hverified]
        simp [hth, hid, hverified]

theorem Offered.proper {th : Thread} (h : Offered C P handle st th) :
    handle.threadId ≠ "" ∧ handle.recoverySecret.length = 32 ∧
      commitmentOf th = hexEncode (Sha256.sum256 handle.recoverySecret) := by
  obtain ⟨P', -, head, -, -, hid, hverified, hmatch⟩ := h
  obtain ⟨hlen, hcommit⟩ := matchesRecoveryCommitment_iff.mp hmatch
  exact ⟨hid ▸ hverified.named.1, hlen, hcommit⟩

/-- **When recovery is bound to the creator**: a secret is authorized only by the hash that is saved or by a
descriptor that the stored creator has signed, exactly if the descriptor that peers offer for it, where
no hash decides, is the creator's or has a commitment that the creator has made as well. -/
theorem recovery_bound_to_creator_iff (C : Ed25519) (caps : Capabilities) (fails : Option String)
    (P : Option (Peers σ)) (handle : RecoveryHandle) (st : σ) {db : Database} {stored : Thread}
    (hstored : db.threads.lookup handle.threadId = some stored) :
    (authorizeRecoveryHandle C caps fails P handle st = some (.ok true) →
      LocallySaved caps handle ∨
        CommittedBy C stored.creatorDid handle.threadId (hexEncode (Sha256.sum256 handle.recoverySecret))) ↔
    ∀ th, Offered C P handle st th → LocallySaved caps handle ∨ fails.isSome ∨
      th.creatorDid = stored.creatorDid ∨ CommittedBy C stored.creatorDid stored.id (commitmentOf th) := by
  have hid : stored.id = handle.threadId := (Table.lookup_eq_some.mp hstored).2
  rw [hid]
  constructor
  · intro h th hoffer
    obtain ⟨hne, hlen, hcommit⟩ := hoffer.proper
    by_cases hsaved : LocallySaved caps handle
    · exact .inl hsaved
    cases fails with
    | some err => exact .inr (.inl rfl)
    | none =>
      have hcap : caps.authorizeRecoveryCapability none handle.threadId handle.recoverySecret = .ok false := by
        cases hcap : caps.authorizeRecoveryCapability none handle.threadId handle.recoverySecret with
        | ok b =>
          cases b with
          | false => rfl
          | true => exact absurd (authorizeRecoveryCapability_eq_true hcap) hsaved
        | error err =>
          unfold Capabilities.authorizeRecoveryCapability at hcap
          rw [if_neg (by simp [hne, hlen])] at hcap
          dsimp only at hcap
          split at hcap <;> cases hcap
      rcases h (authorizeRecoveryHandle_eq_true.mpr (.inr ⟨hcap, th, hoffer⟩)) with hsaved' | hcommitted
      · exact .inl hsaved'
      · exact .inr (.inr (.inr (hcommit ▸ hcommitted)))
  · intro h hallowed
    rcases authorizeRecoveryHandle_eq_true.mp hallowed with hcap | ⟨hcap, th, hoffer⟩
    · exact .inl (authorizeRecoveryCapability_eq_true hcap)
    · obtain ⟨hne, hlen, hcommit⟩ := hoffer.proper
      rcases h th hoffer with hsaved | hfails | hcreator | hcommitted
      · exact .inl hsaved
      · -- The query did not fail, it was answered.
        obtain ⟨err, rfl⟩ := Option.isSome_iff_exists.mp hfails
        unfold Capabilities.authorizeRecoveryCapability at hcap
        rw [if_neg (by simp [hne, hlen])] at hcap
        cases hcap
      · obtain ⟨P', -, head, -, -, hth, hverified, -⟩ := hoffer
        exact .inr ⟨th, hverified, hcreator, hth, hcommit⟩
      · exact .inr (hcommit ▸ hcommitted)

end Authorization

namespace Heirs

open Tendermint.Quartet (did1 did2 key checksum)
open ActorManager.Family (newer home)

/-- A secret. -/
def secret : List UInt8 := List.replicate 32 7

/-- The handle for it. -/
def handle : RecoveryHandle := ⟨"t", secret⟩

/-- A signature scheme in which the first agent has signed one descriptor, and the second one all it wants. -/
def oneDeed : Ed25519 where
  sign _ _ := [1]
  verify pub msg _ := pub = key 2 ∨ pub = key 1 ∧ msg = descriptorBytes newer

/-- A descriptor of the thread with a commitment to the secret, in the name of the given creator. -/
def will (creator : String) : Thread :=
  { newer with
    creatorDid := creator
    metadata := newer.metadata ++ [(recoveryCommitmentMetadataKey, hexEncode (Sha256.sum256 secret))] }

/-- Peers with a head that has the given descriptor. -/
def registry (th : Thread) : Peers Unit where
  getValue _ _ := (.ok { threadID := "t", height := 1, blockCid := "bafy", blockHash := "aa", thread := some th }, ())
  getBlock _ _ := (.error "not found", ())
  decodes _ := true

/-- A descriptor with a commitment has an underscore in what is signed. -/
theorem underscore_mem_descriptorBytes {th : Thread} (h : commitmentOf th ≠ "") : 95 ∈ descriptorBytes th := by
  obtain ⟨v, hv⟩ : ∃ v, th.metadata.lookup recoveryCommitmentMetadataKey = some v := by
    cases hlookup : th.metadata.lookup recoveryCommitmentMetadataKey with
    | none => exact absurd (by rw [commitmentOf, hlookup]; rfl) h
    | some v => exact ⟨v, rfl⟩
  obtain ⟨l₁, l₂, heq, -⟩ := List.lookup_eq_some_iff.mp hv
  have hmem : (recoveryCommitmentMetadataKey, v) ∈ th.metadata := by
    rw [heq]
    exact List.mem_append_right _ List.mem_cons_self
  have hne : recoveryCommitmentMetadataKey ≠ descriptorSignatureKey := by decide
  refine List.mem_append_right _ (List.mem_flatMap.mpr ⟨(recoveryCommitmentMetadataKey, v), ?_, ?_⟩)
  · exact (List.mem_insertionSort _).mpr (List.mem_filter.mpr ⟨hmem, decide_eq_true hne⟩)
  · have hkey : (95 : UInt8) ∈ bytes recoveryCommitmentMetadataKey := by decide
    simp only [marshalPair, protoElem, List.mem_append]
    exact .inr (.inl (.inr hkey))

/-- **Another agent's descriptor opens the thread**: the node stores the thread of the first agent, who has
signed no commitment to the secret, and the secret is authorized by a descriptor of the second agent. -/
theorem recovery_by_another :
    (home ⟨did1, key 1⟩ []).db.threads.lookup "t" = some newer ∧
    newer.creatorDid = did1 ∧ Verified oneDeed newer ∧
    authorizeRecoveryHandle oneDeed .empty none (some (registry (will did2))) handle () = some (.ok true) ∧
    ¬LocallySaved .empty handle ∧
    ¬CommittedBy oneDeed did1 "t" (hexEncode (Sha256.sum256 secret)) := by
  refine ⟨by decide +kernel, by decide +kernel, by decide +kernel, by decide +kernel, ?_, ?_⟩
  · rintro ⟨⟩
  rintro ⟨th, hverified, hcreator, -, hcommit⟩
  have hmem : (95 : UInt8) ∈ descriptorBytes th := by
    refine underscore_mem_descriptorBytes ?_
    rw [hcommit]
    decide +kernel
  obtain ⟨pub, sig, hpub, hsig⟩ := hverified.signed
  have hkey : Identity.pubKeyFromDID did1 = .ok (key 1) := by decide +kernel
  rw [hcreator, hkey] at hpub
  obtain rfl := Except.ok.inj hpub
  -- The one descriptor the first agent has signed has no underscore.
  rcases of_decide_eq_true hsig with hother | ⟨-, hbytes⟩
  · exact absurd hother (by decide)
  · rw [hbytes] at hmem
    exact absurd hmem (by decide +kernel)

/-- The creator's own descriptor. -/
def lastWill : Thread := (signDescriptor checksum (will did1) ⟨did1, key 1⟩).getD (will did1)

/-- The creator's own descriptor authorizes the secret it commits to. -/
theorem recovery_bound_to_creator_lastWill :
    (home ⟨did1, key 1⟩ []).db.threads.lookup handle.threadId = some newer ∧
    authorizeRecoveryHandle checksum .empty none (some (registry lastWill)) handle () = some (.ok true) ∧
    (LocallySaved .empty handle ∨
      CommittedBy checksum newer.creatorDid handle.threadId (hexEncode (Sha256.sum256 handle.recoverySecret))) := by
  have hstored : (home ⟨did1, key 1⟩ []).db.threads.lookup handle.threadId = some newer := by decide +kernel
  have hallowed : authorizeRecoveryHandle checksum .empty none (some (registry lastWill)) handle () =
      some (.ok true) := by decide +kernel
  refine ⟨hstored, hallowed, (recovery_bound_to_creator_iff checksum .empty none (some (registry lastWill))
    handle () hstored).mpr ?_ hallowed⟩
  rintro th ⟨P, hP, head, hhead, hth, -⟩
  obtain rfl := Option.some.inj hP
  have hresolve : ((registry lastWill).resolveHead handle.threadId ()).1 =
      .ok ⟨"t", 1, "bafy", "aa", some lastWill⟩ := by decide +kernel
  rw [hresolve] at hhead
  obtain rfl := Except.ok.inj hhead
  obtain rfl := Option.some.inj hth
  exact .inr (.inr (.inl (by decide +kernel)))

end Heirs

end MoltMesh

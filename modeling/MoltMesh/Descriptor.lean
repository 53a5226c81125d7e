import MoltMesh.Identity
import MoltMesh.Pb

/-!
# Thread descriptors

`daemon/thread/descriptor.go`: the creator of a thread signs its descriptor, and
the signature stands in the descriptor's own metadata.
-/

namespace MoltMesh

open MoltMesh.Lib Pb

variable {C : Ed25519} {th : Thread} {id : Identity}

/-- `descriptorSignatureKey`. -/
def descriptorSignatureKey : String := "creator_signature"

/-- An entry of a map field. -/
def marshalPair (p : String × String) : List UInt8 :=
  protoElem 8 (protoElem 1 (bytes p.1) ++ protoElem 2 (bytes p.2))

/-- `descriptorBytes`: the deterministic protobuf encoding of the descriptor without its signature.
The keys of a map are written in order. -/
def descriptorBytes (th : Thread) : List UInt8 :=
  protoBytes 1 (bytes th.id) ++ protoBytes 2 (bytes th.creatorDid) ++
    th.replicaDids.flatMap (fun did => protoElem 3 (bytes did)) ++ protoInt 4 th.n.toInt ++
    protoInt 5 th.f.toInt ++ protoInt 6 th.epochMs ++ protoInt 7 th.createdAt ++
    ((th.metadata.filter fun p => p.1 ≠ descriptorSignatureKey).insertionSort
      (fun p q => p.1 ≤ q.1)).flatMap marshalPair

/-- `SignDescriptor`; there is no result when the identity is not the creator's. -/
def signDescriptor (C : Ed25519) (th : Thread) (id : Identity) : Option Thread :=
  if th.creatorDid ≠ id.did then none
  else
    let sig := String.ofList (base64Chars (id.sign C (descriptorBytes th)))
    some { th with
      metadata := (th.metadata.filter fun p => p.1 ≠ descriptorSignatureKey) ++
        [(descriptorSignatureKey, sig)] }

/-- Signing changes nothing but the metadata. -/
theorem signDescriptor_eq_some {th' : Thread}
    (h : signDescriptor C th id = some th') : ∃ m, th' = { th with metadata := m } := by
  obtain ⟨-, h⟩ := Option.ite_none_left_eq_some.mp h
  exact ⟨_, (Option.some.inj h).symm⟩

/-- The errors of `VerifyDescriptor`. -/
inductive DescriptorError
  /-- `invalid thread descriptor`. -/
  | invalid
  /-- `decode creator signature`. -/
  | decode
  /-- The error of `VerifyDID`. -/
  | key (err : String)
  /-- `invalid creator signature`. -/
  | signature
deriving DecidableEq

/-- `VerifyDescriptor`; there is no result when `ed25519.Verify` panics. -/
def verifyDescriptor (C : Ed25519) (th : Thread) : Option (Except DescriptorError Unit) :=
  if th.id = "" ∨ th.creatorDid = "" then some (.error .invalid)
  else match base64Decode ((th.metadata.lookup descriptorSignatureKey).getD "") with
    | none => some (.error .decode)
    | some sig => (Identity.verifyDID C th.creatorDid (descriptorBytes th) sig).map fun
      | .error err => .error (.key err)
      | .ok false => .error .signature
      | .ok true => .ok ()

/-- The descriptor passes. -/
def Verified (C : Ed25519) (th : Thread) : Prop := verifyDescriptor C th = some (.ok ())

instance (C : Ed25519) (th : Thread) : Decidable (Verified C th) :=
  inferInstanceAs (Decidable (_ = _))

theorem Verified.named (h : Verified C th) : th.id ≠ "" ∧ th.creatorDid ≠ "" := by
  rw [← not_or]
  intro hempty
  rw [Verified, verifyDescriptor, if_pos hempty] at h
  cases h

/-- A descriptor that passes has a signature that is valid under the key of its creator. -/
theorem Verified.signed (h : Verified C th) :
    ∃ pub sig, Identity.pubKeyFromDID th.creatorDid = .ok pub ∧ C.verify pub (descriptorBytes th) sig = true := by
  have hnamed := h.named
  rw [Verified, verifyDescriptor, if_neg (not_or.mpr hnamed)] at h
  split at h
  · cases h
  rename_i sig _
  unfold Identity.verifyDID at h
  split at h
  · cases h
  rename_i pub hpub
  refine ⟨pub, sig, hpub, ?_⟩
  unfold Identity.verifyWithPub at h
  split at h
  · cases hv : C.verify pub (descriptorBytes th) sig with
    | true => rfl
    | false =>
      rw [hv] at h
      cases h
  · cases h

/-- The descriptor with a signature. -/
def withSignature (th : Thread) (sig : String) : Thread :=
  { th with
    metadata := (th.metadata.filter fun p => p.1 ≠ descriptorSignatureKey) ++
      [(descriptorSignatureKey, sig)] }

theorem signDescriptor_eq_withSignature {th' : Thread} (h : signDescriptor C th id = some th') :
    th' = withSignature th (String.ofList (base64Chars (id.sign C (descriptorBytes th)))) :=
  (Option.some.inj (Option.ite_none_left_eq_some.mp h).2).symm

/-- The signature is not part of what is signed. -/
theorem descriptorBytes_withSignature (th : Thread) (sig : String) :
    descriptorBytes (withSignature th sig) = descriptorBytes th := by
  simp [descriptorBytes, withSignature, List.filter_append, List.filter_filter]

/-- The signature is found where it was put. -/
theorem lookup_withSignature (th : Thread) (sig : String) :
    (withSignature th sig).metadata.lookup descriptorSignatureKey = some sig := by
  have hnone : (th.metadata.filter fun p => p.1 ≠ descriptorSignatureKey).lookup
      descriptorSignatureKey = none := by
    rw [List.lookup_eq_none_iff]
    intro p hp
    have hne : p.1 ≠ descriptorSignatureKey := of_decide_eq_true (List.mem_filter.mp hp).2
    simpa using hne.symm
  rw [withSignature, List.lookup_append, hnone]
  simp

/-- **What the creator has signed passes.** -/
theorem verified_of_signDescriptor {th' : Thread}
    (hkey : id.Keyed C) (hid : th.id ≠ "") (hcreator : th.creatorDid ≠ "")
    (h : signDescriptor C th id = some th') : Verified C th' := by
  have hown : th.creatorDid = id.did := not_not.mp (Option.ite_none_left_eq_some.mp h).1
  rw [signDescriptor_eq_withSignature h, Verified, verifyDescriptor, lookup_withSignature,
    Option.getD_some, base64Decode_base64Chars, descriptorBytes_withSignature]
  change (if th.id = "" ∨ th.creatorDid = "" then _ else
    Option.map _ (Identity.verifyDID C th.creatorDid _ _)) = _
  rw [if_neg (not_or.mpr ⟨hid, hcreator⟩), hown, hkey.valid]
  rfl

end MoltMesh

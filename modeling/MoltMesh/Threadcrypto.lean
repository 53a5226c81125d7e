import MoltMesh.Identity
import MoltMesh.Lib.Framing

/-!
# The envelope of an encrypted entry

`pkg/threadcrypto/envelope.go`: the header of an encrypted entry, its canonical
encoding and the check of the author's signature.  What is signed is the encoded
header followed by the ciphertext, and both can be read back from it
(`encode_append_inj`).
-/

namespace MoltMesh.Threadcrypto

open MoltMesh.Lib

/-- `chacha20poly1305.NonceSizeX`. -/
def nonceSizeX : Nat := 24

/-- `Header`, with its texts as the bytes Go has them in: they need not be UTF-8. -/
structure RawHeader where
  threadID : List UInt8
  sequence : UInt64
  previousBlockHash : List UInt8
  authorDID : List UInt8
  kind : List UInt8
  membershipEpoch : UInt64
  encryptionEpoch : UInt64
  nonce : List UInt8
deriving DecidableEq

namespace RawHeader

/-- The buffer `Canonical` fills. -/
def encode (h : RawHeader) : List UInt8 :=
  framed h.threadID ++ bigEndian 8 h.sequence.toNat ++ framed h.previousBlockHash ++ framed h.authorDID ++
    framed h.kind ++ bigEndian 8 h.membershipEpoch.toNat ++ bigEndian 8 h.encryptionEpoch.toNat ++ framed h.nonce

/-- `Header.Canonical`. -/
def canonical (h : RawHeader) : Except String (List UInt8) :=
  if h.nonce.length ≠ nonceSizeX then .error "thread nonce must be 24 bytes" else .ok h.encode

/-- The variable fields. -/
def blobs (h : RawHeader) : List (List UInt8) := [h.threadID, h.previousBlockHash, h.authorDID, h.kind, h.nonce]

/-- The length of each variable field fits the four bytes it is written in. -/
def Short (h : RawHeader) : Prop := ∀ b ∈ h.blobs, b.length < 256 ^ 4

theorem toNat_lt_bigEndian (n : UInt64) : n.toNat < 256 ^ 8 := n.toNat_lt

theorem encode_append_inj {g h : RawHeader} {c d : List UInt8} (hg : g.Short) (hh : h.Short)
    (heq : g.encode ++ c = h.encode ++ d) : g = h ∧ c = d := by
  simp only [Short, blobs, List.forall_mem_cons] at hg hh
  obtain ⟨hgthread, hgprev, hgauthor, hgkind, hgnonce, -⟩ := hg
  obtain ⟨hhthread, hhprev, hhauthor, hhkind, hhnonce, -⟩ := hh
  simp only [encode, List.append_assoc] at heq
  obtain ⟨hthread, heq⟩ := framed_append_inj hgthread hhthread heq
  obtain ⟨hseq, heq⟩ := bigEndian_append_inj (toNat_lt_bigEndian _) (toNat_lt_bigEndian _) heq
  obtain ⟨hprev, heq⟩ := framed_append_inj hgprev hhprev heq
  obtain ⟨hauthor, heq⟩ := framed_append_inj hgauthor hhauthor heq
  obtain ⟨hkind, heq⟩ := framed_append_inj hgkind hhkind heq
  obtain ⟨hmember, heq⟩ := bigEndian_append_inj (toNat_lt_bigEndian _) (toNat_lt_bigEndian _) heq
  obtain ⟨hencrypt, heq⟩ := bigEndian_append_inj (toNat_lt_bigEndian _) (toNat_lt_bigEndian _) heq
  obtain ⟨hnonce, heq⟩ := framed_append_inj hgnonce hhnonce heq
  refine ⟨?_, heq⟩
  cases g
  cases h
  rw [RawHeader.mk.injEq]
  exact ⟨hthread, UInt64.toNat_inj.mp hseq, hprev, hauthor, hkind, UInt64.toNat_inj.mp hmember,
    UInt64.toNat_inj.mp hencrypt, hnonce⟩

end RawHeader

/-- `Header`, with texts that are UTF-8. -/
structure Header where
  threadID : String
  sequence : UInt64
  previousBlockHash : List UInt8
  authorDID : String
  kind : String
  membershipEpoch : UInt64
  encryptionEpoch : UInt64
  nonce : List UInt8
deriving DecidableEq

namespace Header

/-- The header as Go has it. -/
def raw (h : Header) : RawHeader where
  threadID := bytes h.threadID
  sequence := h.sequence
  previousBlockHash := h.previousBlockHash
  authorDID := bytes h.authorDID
  kind := bytes h.kind
  membershipEpoch := h.membershipEpoch
  encryptionEpoch := h.encryptionEpoch
  nonce := h.nonce

theorem raw_injective : Function.Injective raw := by
  intro g h heq
  cases g
  cases h
  simp only [raw, RawHeader.mk.injEq] at heq
  obtain ⟨hthread, hseq, hprev, hauthor, hkind, hmember, hencrypt, hnonce⟩ := heq
  rw [Header.mk.injEq]
  exact ⟨bytes_injective hthread, hseq, hprev, bytes_injective hauthor, bytes_injective hkind, hmember, hencrypt, hnonce⟩

/-- The buffer `Canonical` fills. -/
def encode (h : Header) : List UInt8 :=
  framed (bytes h.threadID) ++ bigEndian 8 h.sequence.toNat ++ framed h.previousBlockHash ++
    framed (bytes h.authorDID) ++ framed (bytes h.kind) ++ bigEndian 8 h.membershipEpoch.toNat ++
    bigEndian 8 h.encryptionEpoch.toNat ++ framed h.nonce

/-- `Header.Canonical`. -/
def canonical (h : Header) : Except String (List UInt8) :=
  if h.nonce.length ≠ nonceSizeX then .error "thread nonce must be 24 bytes" else .ok h.encode

/-- The length of each variable field fits the four bytes it is written in. -/
structure Short (h : Header) : Prop where
  threadID : (bytes h.threadID).length < 256 ^ 4
  previousBlockHash : h.previousBlockHash.length < 256 ^ 4
  authorDID : (bytes h.authorDID).length < 256 ^ 4
  kind : (bytes h.kind).length < 256 ^ 4
  nonce : h.nonce.length < 256 ^ 4

theorem Short.raw {h : Header} (hs : h.Short) : h.raw.Short := by
  simp only [RawHeader.Short, RawHeader.blobs, List.forall_mem_cons]
  exact ⟨hs.threadID, hs.previousBlockHash, hs.authorDID, hs.kind, hs.nonce, List.forall_mem_nil _⟩

/-- **Headers are unambiguous**: the header and what follows it can be read off the bytes. -/
theorem encode_append_inj {g h : Header} {c d : List UInt8} (hg : g.Short) (hh : h.Short)
    (heq : g.encode ++ c = h.encode ++ d) : g = h ∧ c = d :=
  (RawHeader.encode_append_inj hg.raw hh.raw heq).imp_left fun h => raw_injective h

end Header

/-! ## The header of the Python SDK -/

/-- `EntryHeader` of `sdk/python/moltmesh/threadcrypto.py`. -/
structure EntryHeader where
  threadId : String
  sequence : Int
  previousBlockHash : List UInt8
  authorDid : String
  kind : String
  membershipEpoch : Int
  encryptionEpoch : Int
  nonce : List UInt8

namespace EntryHeader

/-- `struct.pack(">Q", n)`; there is no result when it raises. -/
def packQ (n : Int) : Option (List UInt8) := if 0 ≤ n ∧ n < 256 ^ 8 then some (bigEndian 8 n.toNat) else none

/-- `blob`, with `struct.pack(">I", n)` for the length. -/
def blob (value : List UInt8) : Option (List UInt8) :=
  if value.length < 256 ^ 4 then some (framed value) else none

/-- `EntryHeader.canonical`; there is no result when it raises. -/
def canonical (h : EntryHeader) : Option (List UInt8) :=
  if h.nonce.length ≠ nonceSizeX then none
  else do
    let threadId ← blob (bytes h.threadId)
    let sequence ← packQ h.sequence
    let previousBlockHash ← blob h.previousBlockHash
    let authorDid ← blob (bytes h.authorDid)
    let kind ← blob (bytes h.kind)
    let membershipEpoch ← packQ h.membershipEpoch
    let encryptionEpoch ← packQ h.encryptionEpoch
    let nonce ← blob h.nonce
    some (threadId ++ sequence ++ previousBlockHash ++ authorDid ++ kind ++ membershipEpoch ++ encryptionEpoch ++ nonce)

theorem packQ_toNat (n : UInt64) : packQ n.toNat = some (bigEndian 8 n.toNat) :=
  if_pos ⟨Int.natCast_nonneg _, by exact_mod_cast RawHeader.toNat_lt_bigEndian n⟩

theorem blob_eq_some_iff {value bs : List UInt8} : blob value = some bs ↔ value.length < 256 ^ 4 ∧ framed value = bs :=
  Option.ite_none_right_eq_some.trans (and_congr_right' (Option.some.injEq ..).to_iff)

end EntryHeader

/-- The header in Python. -/
def Header.entryHeader (h : Header) : EntryHeader where
  threadId := h.threadID
  sequence := h.sequence.toNat
  previousBlockHash := h.previousBlockHash
  authorDid := h.authorDID
  kind := h.kind
  membershipEpoch := h.membershipEpoch.toNat
  encryptionEpoch := h.encryptionEpoch.toNat
  nonce := h.nonce

/-- Python writes what Go writes, and raises when a field is too long for its length. -/
theorem Header.canonical_entryHeader {h : Header} {bs : List UInt8} : h.entryHeader.canonical = some bs ↔
    h.raw.canonical = .ok bs ∧ h.raw.Short := by
  have hgo : h.raw.canonical = .ok bs ↔ h.nonce.length = nonceSizeX ∧ h.encode = bs := by
    unfold RawHeader.canonical
    split
    · rename_i hnonce
      exact iff_of_false (by rintro ⟨⟩) fun h => hnonce h.1
    · rename_i hnonce
      exact ⟨fun h => ⟨not_not.mp hnonce, Except.ok.inj h⟩, fun h => congrArg Except.ok h.2⟩
  rw [hgo]
  simp only [EntryHeader.canonical, entryHeader, EntryHeader.packQ_toNat, EntryHeader.blob_eq_some_iff,
    Option.bind_eq_bind, Option.ite_none_left_eq_some, not_not, Option.bind_eq_some_iff, Option.some.injEq, RawHeader.Short, RawHeader.blobs, raw, List.forall_mem_cons]
  constructor
  · rintro ⟨hnonce, _, ⟨hthread, rfl⟩, _, rfl, _, ⟨hprev, rfl⟩, _, ⟨hauthor, rfl⟩, _, ⟨hkind, rfl⟩, _, rfl, _, rfl, _,
      ⟨hlen, rfl⟩, rfl⟩
    exact ⟨⟨hnonce, rfl⟩, hthread, hprev, hauthor, hkind, hlen, List.forall_mem_nil _⟩
  · rintro ⟨⟨hnonce, rfl⟩, hthread, hprev, hauthor, hkind, hlen, -⟩
    exact ⟨hnonce, _, ⟨hthread, rfl⟩, _, rfl, _, ⟨hprev, rfl⟩, _, ⟨hauthor, rfl⟩, _, ⟨hkind, rfl⟩, _, rfl, _, rfl, _,
      ⟨hlen, rfl⟩, rfl⟩

/-- **Headers are unambiguous, and the same in both languages** unless a field is too long. -/
theorem canonical_unambiguous :
    (∀ (g h : RawHeader) (c d a b : List UInt8), g.Short → h.Short → g.canonical = .ok a → h.canonical = .ok b →
      a ++ c = b ++ d → g = h ∧ c = d) ∧
    ∀ h : Header, h.raw.Short → ∀ bs, h.entryHeader.canonical = some bs ↔ h.raw.canonical = .ok bs := by
  refine ⟨fun g h c d a b hg hh ha hb heq => ?_, fun h hshort bs => ?_⟩
  · unfold RawHeader.canonical at ha hb
    split at ha
    · cases ha
    split at hb
    · cases hb
    cases ha
    cases hb
    exact RawHeader.encode_append_inj hg hh heq
  · exact Header.canonical_entryHeader.trans (and_iff_left hshort)

/-- A field of four gibibytes makes Python raise, and Go write a length of zero. -/
theorem canonical_differs : ∃ h : Header, h.entryHeader.canonical = none ∧ ∃ bs, h.raw.canonical = .ok bs := by
  refine ⟨⟨"", 0, List.replicate (256 ^ 4) 0, "", "", 0, 0, List.replicate 24 0⟩, ?_, _, if_neg ?_⟩
  · rw [Option.eq_none_iff_forall_ne_some]
    intro bs h
    have hlt := (Header.canonical_entryHeader.mp h).2 (List.replicate (256 ^ 4) 0) (.tail _ (.head _))
    rw [List.length_replicate] at hlt
    exact lt_irrefl _ hlt
  · exact not_not.mpr List.length_replicate

/-- `Verify`. -/
def verify (C : Ed25519) (pub : List UInt8) (header : Header) (ciphertext signature : List UInt8) :
    Except String Bool :=
  if pub.length ≠ Identity.publicKeySize then .error "invalid Ed25519 public key"
  else match header.canonical with
    | .error err => .error err
    | .ok aad => .ok (C.verify pub (aad ++ ciphertext) signature)

theorem verify_eq_ok {C : Ed25519} {pub : List UInt8} {header : Header} {c sig : List UInt8} {b : Bool}
    (h : verify C pub header c sig = .ok b) :
    pub.length = Identity.publicKeySize ∧ C.verify pub (header.encode ++ c) sig = b := by
  unfold verify Header.canonical at h
  split at h
  · cases h
  rename_i hlen
  split at h
  · cases h
  · rename_i aad haad
    split at haad
    · cases haad
    · rw [Except.ok.inj haad]
      exact ⟨not_not.mp hlen, Except.ok.inj h⟩

end MoltMesh.Threadcrypto

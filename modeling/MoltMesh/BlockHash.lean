import MoltMesh.Lib.Sha256
import MoltMesh.Lib.Text
import MoltMesh.Pb

/-!
# What is hashed and what is signed

The canonical texts of `tendermint.go` and `raft.go`: the block hash of each
backend and the texts a Tendermint replica signs for its proposals and votes.

The texts are records of fields separated by colons.  The thread id and the
hash may contain colons themselves, the numbers between them cannot, so for one
thread the numbers and the hash can be read back: this is `voteSigData_inj`
and, for the hashed text, `rawBlock_inj`.
-/

namespace MoltMesh

open MoltMesh.Lib Pb

/-- `entryJSON`, the five fields of an entry that are stored and, by Tendermint, hashed. -/
structure EntryJSON where
  authorDid : String
  payload : List UInt8
  kind : String
  authorSig : String
  submittedAt : Int
deriving DecidableEq

/-- `marshalEntries`. -/
def marshalEntries (entries : List ThreadEntry) : List EntryJSON :=
  entries.map fun e =>
    { authorDid := e.authorDid, payload := e.payload, kind := e.kind, authorSig := e.authorSig,
      submittedAt := e.submittedAt }

/-- `unmarshalEntries`, after the JSON has been read. -/
def unmarshalEntries (entries : List EntryJSON) : List ThreadEntry :=
  entries.map fun e =>
    { authorDid := e.authorDid, payload := e.payload, kind := e.kind, authorSig := e.authorSig,
      submittedAt := e.submittedAt }

/-- The JSON of a byte slice; a nil slice is `null`. -/
def jsonBytes (bs : List UInt8) : String :=
  if bs = [] then "null" else String.ofList ('"' :: base64Chars bs ++ ['"'])

/-- The JSON object of one entry. -/
def EntryJSON.json (e : EntryJSON) : String :=
  "\x7b\"author_did\":" ++ jsonString e.authorDid ++ ",\"payload\":" ++ jsonBytes e.payload ++
    ",\"kind\":" ++ jsonString e.kind ++ ",\"author_sig\":" ++ jsonString e.authorSig ++
    ",\"submitted_at\":" ++ decimal e.submittedAt ++ "\x7d"

/-- `json.Marshal(marshalEntries(entries))`. -/
def entriesJSON (entries : List ThreadEntry) : String :=
  "[" ++ String.intercalate "," ((marshalEntries entries).map EntryJSON.json) ++ "]"

/-- The text `computeBlockHash` hashes. -/
def rawBlock (b : ThreadBlock) : String :=
  fields [b.threadId, decimal b.height, decimal b.round.toInt, b.parentHash,
    hexEncode (bytes (entriesJSON b.entries)), b.proposerDid]

/-- `computeBlockHash`, the block hash of the Tendermint backend. -/
def computeBlockHash (b : ThreadBlock) : String := hexEncode (Sha256.sum256 (bytes (rawBlock b)))

/-- The deterministic protobuf encoding of an entry. -/
def marshalEntry (e : ThreadEntry) : List UInt8 :=
  protoBytes 1 (bytes e.authorDid) ++ protoBytes 2 e.payload ++ protoBytes 3 (bytes e.kind) ++
    protoBytes 4 (bytes e.authorSig) ++ protoInt 5 e.submittedAt ++ protoInt 6 e.encodingVersion ++
    protoInt 7 e.sequence ++ protoBytes 8 e.previousBlockHash ++ protoInt 9 e.membershipEpoch ++
    protoInt 10 e.encryptionEpoch ++ protoBytes 11 e.nonce ++ protoBytes 12 e.authorSignature

/-- `raftBlockHash`, the block hash of the Raft backend. -/
def raftBlockHash (b : ThreadBlock) : String :=
  hexEncode (Sha256.sum256 (bytes (fields ["raft", b.threadId, decimal b.height,
    decimal b.round.toInt, b.parentHash, b.proposerDid, ""]) ++ b.entries.flatMap marshalEntry))

/-- `proposalSigData`. -/
def proposalSigData (threadID : String) (height : Int) (round : Int32) (blockHash : String) :
    List UInt8 :=
  bytes (fields ["proposal", threadID, decimal height, decimal round.toInt, blockHash])

/-- `voteSigData`. -/
def voteSigData (threadID : String) (height : Int) (round : Int32) (vtype : VoteType)
    (blockHash : String) : List UInt8 :=
  bytes (fields ["vote", threadID, decimal height, decimal round.toInt, decimal vtype.number,
    blockHash])

/-! ## Reading the texts back -/

theorem computeBlockHash_eq_iff {b b' : ThreadBlock} :
    computeBlockHash b = computeBlockHash b' ↔
      Sha256.sum256 (bytes (rawBlock b)) = Sha256.sum256 (bytes (rawBlock b')) :=
  hexEncode_injective.eq_iff

/-- A computed hash has sixty-four characters, so its first eight bytes exist. -/
theorem eight_le_utf8ByteSize_computeBlockHash (b : ThreadBlock) :
    8 ≤ (computeBlockHash b).utf8ByteSize := by
  have h := two_mul_length_le_utf8ByteSize_hexEncode (Sha256.sum256 (bytes (rawBlock b)))
  rw [Sha256.length_sum256] at h
  exact le_trans (by decide) h

/-- Within one thread the hashed text determines height and round. -/
theorem rawBlock_inj {b b' : ThreadBlock} (ht : b.threadId = b'.threadId)
    (h : rawBlock b = rawBlock b') : b.height = b'.height ∧ b.round = b'.round := by
  unfold rawBlock at h
  rw [ht] at h
  obtain ⟨hh, h₁⟩ := fields_decimal_inj (fields_cons_cancel h)
  obtain ⟨hr, -⟩ := fields_decimal_inj h₁
  exact ⟨hh, Int32.toInt_inj.mp hr⟩

theorem voteSigData_inj {t : String} {h h' : Int} {r r' : Int32} {ty ty' : VoteType}
    {H H' : String} (heq : voteSigData t h r ty H = voteSigData t h' r' ty' H') :
    h = h' ∧ r = r' ∧ ty = ty' ∧ H = H' := by
  have h₀ := fields_cons_cancel (fields_cons_cancel (bytes_injective heq))
  obtain ⟨hh, h₁⟩ := fields_decimal_inj h₀
  obtain ⟨hr, h₂⟩ := fields_decimal_inj h₁
  obtain ⟨hty, hH⟩ := fields_decimal_inj h₂
  exact ⟨hh, Int32.toInt_inj.mp hr, VoteType.number_injective hty, hH⟩

/-- No text is signed both as a vote and as a proposal. -/
theorem voteSigData_ne_proposalSigData {t t' : String} {h h' : Int} {r r' : Int32} {ty : VoteType}
    {H H' : String} : voteSigData t h r ty H ≠ proposalSigData t' h' r' H' := by
  intro heq
  have hv : NoColon "vote" := by decide
  have hp : NoColon "proposal" := by decide
  exact absurd (fields_cons_inj hv hp (bytes_injective heq)).1 (by decide)

end MoltMesh

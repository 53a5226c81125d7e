import MoltMesh.Creation
import MoltMesh.Tendermint.Restart

/-!
# What a signature is for

A replica signs its votes and proposals as records of fields separated by colons, with
the thread id in front and the hash at the end.  Neither of these two is free of
colons: the id of a thread is what an SDK chooses, and the hash of a vote is what the
proposal carried.  Two records are the same bytes exactly when they have the same parts
or one is nested in the other.
-/

namespace MoltMesh.Tendermint

open MoltMesh.Lib Pb

/-- What a vote says. -/
@[ext]
structure Ballot where
  threadId : String
  height : Int
  round : Int32
  type : VoteType
  blockHash : String
deriving DecidableEq

/-- What a proposal says. -/
@[ext]
structure Bid where
  threadId : String
  height : Int
  round : Int32
  blockHash : String
deriving DecidableEq

namespace Ballot

/-- What is signed for a vote. -/
def sigData (b : Ballot) : List UInt8 := voteSigData b.threadId b.height b.round b.type b.blockHash

/-- The fields between thread id and hash. -/
def numbers (b : Ballot) : List String :=
  [decimal b.height, decimal b.round.toInt, decimal b.type.number]

/-- The thread id of `b` goes on where `a` has its fields. -/
def Nested (a b : Ballot) : Prop :=
  Lib.Nested a.threadId a.numbers a.blockHash b.threadId b.numbers b.blockHash

theorem noColon_numbers (b : Ballot) : ∀ x ∈ b.numbers, NoColon x := by
  simp [numbers, noColon_decimal]

theorem sigData_eq_iff (a b : Ballot) : a.sigData = b.sigData ↔ a = b ∨ a.Nested b ∨ b.Nested a := by
  have hbytes : a.sigData = b.sigData ↔ fields (a.threadId :: (a.numbers ++ [a.blockHash])) =
      fields (b.threadId :: (b.numbers ++ [b.blockHash])) :=
    bytes_injective.eq_iff.trans ⟨fields_cons_cancel, congrArg fun s => "vote" ++ (":" ++ s)⟩
  rw [hbytes, fields_eq_iff a.noColon_numbers b.noColon_numbers rfl]
  refine or_congr ⟨?_, ?_⟩ Iff.rfl
  · rintro ⟨ht, hn, hH⟩
    simp only [numbers, List.cons.injEq, decimal_injective.eq_iff, Int32.toInt_inj,
      VoteType.number_injective.eq_iff, and_true] at hn
    obtain ⟨hh, hr, hty⟩ := hn
    exact Ballot.ext ht hh hr hty hH
  · rintro rfl
    exact ⟨rfl, rfl, rfl⟩

end Ballot

namespace Bid

/-- What is signed for a proposal. -/
def sigData (b : Bid) : List UInt8 := proposalSigData b.threadId b.height b.round b.blockHash

/-- The fields between thread id and hash. -/
def numbers (b : Bid) : List String := [decimal b.height, decimal b.round.toInt]

/-- The thread id of `b` goes on where `a` has its fields. -/
def Nested (a b : Bid) : Prop :=
  Lib.Nested a.threadId a.numbers a.blockHash b.threadId b.numbers b.blockHash

theorem noColon_numbers (b : Bid) : ∀ x ∈ b.numbers, NoColon x := by
  simp [numbers, noColon_decimal]

theorem sigData_eq_iff (a b : Bid) : a.sigData = b.sigData ↔ a = b ∨ a.Nested b ∨ b.Nested a := by
  have hbytes : a.sigData = b.sigData ↔ fields (a.threadId :: (a.numbers ++ [a.blockHash])) =
      fields (b.threadId :: (b.numbers ++ [b.blockHash])) :=
    bytes_injective.eq_iff.trans ⟨fields_cons_cancel, congrArg fun s => "proposal" ++ (":" ++ s)⟩
  rw [hbytes, fields_eq_iff a.noColon_numbers b.noColon_numbers rfl]
  refine or_congr ⟨?_, ?_⟩ Iff.rfl
  · rintro ⟨ht, hn, hH⟩
    simp only [numbers, List.cons.injEq, decimal_injective.eq_iff, Int32.toInt_inj, and_true] at hn
    exact Bid.ext ht hn.1 hn.2 hH
  · rintro rfl
    exact ⟨rfl, rfl, rfl⟩

end Bid

/-- What is the same only for equal parts is the same for no nested ones. -/
theorem separate_iff {α β : Type} {f : α → β} {nested : α → α → Prop} {threadId : α → String} {a b : α}
    (heq : f a = f b ↔ a = b ∨ nested a b ∨ nested b a)
    (hne : ∀ {a b}, nested a b → threadId a ≠ threadId b) :
    (f a = f b → a = b) ↔ ¬(nested a b ∨ nested b a) := by
  constructor
  · rintro hinj hnested
    obtain rfl := hinj (heq.mpr (.inr hnested))
    exact hnested.elim (fun h => hne h rfl) fun h => hne h rfl
  · intro hfree h
    exact (heq.mp h).resolve_right hfree

/-- **A signature is for one tuple only** exactly if no two of the tuples are nested; votes and
proposals are never the same bytes. -/
theorem signatures_separate_iff (v v' : Ballot) (p p' : Bid) :
    ((v.sigData = v'.sigData → v = v') ↔ ¬(v.Nested v' ∨ v'.Nested v)) ∧
    ((p.sigData = p'.sigData → p = p') ↔ ¬(p.Nested p' ∨ p'.Nested p)) ∧
    v.sigData ≠ p.sigData :=
  ⟨separate_iff (v.sigData_eq_iff v') fun h => Nested.ne h,
    separate_iff (p.sigData_eq_iff p') fun h => Nested.ne h, voteSigData_ne_proposalSigData⟩

namespace Quartet

/-- What the SDK of `did1` signs to create a thread of the four replicas. -/
def sdkDraft (threadId : String) : Thread :=
  { thread with id := threadId, createdAt := 1, metadata := [("backend", "tendermint")] }

/-- The signature. -/
def sdkSignature (threadId : String) : List UInt8 :=
  checksum.sign (key 1) (descriptorBytes (sdkDraft threadId))

/-- The request of the SDK. -/
def sdkRequest (threadId : String) : SignedRequest where
  replicaDids := [did1, did2, did3, did4]
  f := 1
  epochMs := 1000
  metadata := [("backend", "tendermint")]
  threadId
  creatorDid := did1
  creatorSignature := sdkSignature threadId
  createdAt := 1

/-- The thread that is created. -/
def sdkThread (threadId : String) : Thread :=
  withSignature (sdkDraft threadId) (String.ofList (base64Chars (sdkSignature threadId)))

/-- The replica of `did1` in a thread. -/
def member (threadId : String) : Node := ⟨sdkThread threadId, ⟨did1, key 1⟩, checksum⟩

/-- The replica when it has started. -/
def started (threadId : String) : Backend :=
  final (step (member threadId) (clock 0) (newTendermintBackend (member threadId) .empty) .pump)

/-- The vote of `did1` for a block that `did2` has made up. -/
def lured : Vote where
  threadId := "t"
  height := 1
  round := 0
  type := .prevote
  blockHash := "1:0:1:bbbbbbbb"
  voterDid := did1
  signature := hexEncode (checksum.sign (key 1) (voteSigData "t" 1 0 .prevote "1:0:1:bbbbbbbb"))

/-- The signature of a vote in thread `t` is one of a vote in thread `t:1:0:1`. -/
theorem signature_moves :
    newThreadFromSignedRequest checksum "" 1 (some (sdkRequest "t")) = some (.ok (sdkThread "t")) ∧
    newThreadFromSignedRequest checksum "" 1 (some (sdkRequest "t:1:0:1")) =
      some (.ok (sdkThread "t:1:0:1")) ∧
    .broadcast ⟨"t", .vote lured⟩ ∈ (final (step (member "t") (clock 1) (started "t")
      (peerProposal 2 did2 0 (-1) (block 0 "1:0:1:bbbbbbbb")))).trace ∧
    (⟨"t", 1, 0, .prevote, "1:0:1:bbbbbbbb"⟩ : Ballot).sigData =
      (⟨"t:1:0:1", 1, 0, .prevote, "bbbbbbbb"⟩ : Ballot).sigData ∧
    verifyVoteSig checksum { lured with threadId := "t:1:0:1", blockHash := "bbbbbbbb" } =
      some (.ok ()) := by
  exact ⟨by decide +kernel, by decide +kernel, by decide +kernel, by decide +kernel, by decide +kernel⟩

end Quartet

end MoltMesh.Tendermint

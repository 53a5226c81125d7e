import MoltMesh.Lib.Text

/-!
# Identities

`daemon/identity/identity.go`: an agent is a `did:key` text that contains its
Ed25519 public key, and whoever has the private key can sign.  The signature
scheme itself is a parameter; what is modelled is how keys and texts are turned
into its arguments, including the panic of `ed25519.Verify` on a key that does
not have thirty-two bytes.
-/

namespace MoltMesh

open MoltMesh.Lib

/-- The two functions of `crypto/ed25519` the program calls. -/
structure Ed25519 where
  /-- The signature of a message under a private key. -/
  sign : List UInt8 → List UInt8 → List UInt8
  /-- Whether a signature of a message is valid under a public key. -/
  verify : List UInt8 → List UInt8 → List UInt8 → Bool

/-- `Identity`: the agent's DID and its private key. -/
structure Identity where
  did : String
  privateKey : List UInt8

namespace Identity

/-- `ed25519.PublicKeySize`. -/
def publicKeySize : Nat := 32

/-- The multicodec prefix of an Ed25519 public key. -/
def ed25519Prefix : List UInt8 := [0xed, 0x01]

/-- The text every `did:key` starts with. -/
def didPrefix : String := "did:key:z"

/-- `didKeyFromPub`. -/
def didKeyFromPub (pub : List UInt8) : String := didPrefix ++ base58Encode (ed25519Prefix ++ pub)

/-- `PubKeyFromDID`.  The multicodec prefix is dropped without being looked at, and only a lower
bound on the length is checked. -/
def pubKeyFromDID (did : String) : Except String (List UInt8) :=
  if ¬bytes didPrefix <+: bytes did then .error "invalid did:key format"
  else match base58Decode ((bytes did).drop (bytes didPrefix).length) with
    | .error err => .error ("base58 decode: " ++ err)
    | .ok decoded =>
      if decoded.length < 2 + publicKeySize then .error "did:key too short"
      else .ok (decoded.drop 2)

/-- `Identity.Sign`. -/
def sign (C : Ed25519) (id : Identity) (msg : List UInt8) : List UInt8 :=
  C.sign id.privateKey msg

/-- `VerifyWithPub`; there is no result when `ed25519.Verify` panics. -/
def verifyWithPub (C : Ed25519) (pub msg sig : List UInt8) : Option Bool :=
  if pub.length = publicKeySize then some (C.verify pub msg sig) else none

/-- `VerifyDID`; there is no result when `ed25519.Verify` panics. -/
def verifyDID (C : Ed25519) (did : String) (msg sig : List UInt8) : Option (Except String Bool) :=
  match pubKeyFromDID did with
  | .error err => some (.error err)
  | .ok pub => (verifyWithPub C pub msg sig).map .ok

/-- An identity signs with the key its DID contains: what it signs is valid under its DID. -/
structure Keyed (C : Ed25519) (id : Identity) : Prop where
  valid : ∀ msg, verifyDID C id.did msg (id.sign C msg) = some (.ok true)

end Identity

end MoltMesh
